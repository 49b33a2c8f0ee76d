import Rtems.Heap.Exact

/-!
# Information about the heap

The model of `heapiterate.c`, `heapgetinfo.c` and `heapgetfreeinfo.c`.  The walk
from the first to the last block finds the blocks, and the walk through the free
list finds the free ones.
-/

namespace Rtems.Heap

open Lib

/-- `Heap_Information`. -/
structure Information where
  number : BitVec 32
  largest : BitVec 32
  total : BitVec 32
deriving DecidableEq, Repr, Inhabited

/-- A block of this size is counted. -/
def Information.count (info : Information) (size : Nat) : Information :=
  ⟨info.number + 1, if info.largest < BitVec.ofNat 32 size then BitVec.ofNat 32 size else info.largest,
    info.total + BitVec.ofNat 32 size⟩

/-- The loop of `_Heap_Iterate`. -/
def iterateLoop {β : Type} (visitor : Nat → Nat → Bool → β → Bool × β) (s : State) :
    Nat → Nat → β → Option β
  | 0, current, arg => if current = s.lastBlock then some arg else none
  | turns + 1, current, arg =>
    if current = s.lastBlock then some arg
    else
      let size := blockSize s current
      let next := blockAt current size
      let (stop, arg) := visitor current size (isPrevUsed s next) arg
      if stop then some arg else iterateLoop visitor s turns next arg

/-- `_Heap_Iterate`, with what becomes of the argument of the visitor. -/
def iterate {β : Type} (turns : Nat) (s : State) (visitor : Nat → Nat → Bool → β → Bool × β)
    (arg : β) : Option β := iterateLoop visitor s turns s.firstBlock arg

/-- `Heap_Information_block`. -/
structure InformationBlock where
  Free : Information
  Used : Information
  Stats : Statistics
deriving DecidableEq, Repr, Inhabited

/-- `_Heap_Get_information_visitor`. -/
def getInformationVisitor (_block size : Nat) (isUsed : Bool) (info : InformationBlock) :
    Bool × InformationBlock :=
  (false,
    if isUsed then { info with Used := info.Used.count size }
    else { info with Free := info.Free.count size })

/-- `_Heap_Get_information`.  The counters are all zero by default. -/
def getInformation (turns : Nat) (s : State) : Option InformationBlock := do
  let info ← iterate turns s getInformationVisitor default
  some { info with Stats := s.stats }

/-- The loop of `_Heap_Get_free_information`. -/
def freeInformationLoop (s : State) : Nat → Pointer → Information → Option Information
  | _, .freeList, info => some info
  | _, .null, _ => none
  | 0, .block _, _ => none
  | turns + 1, .block block, info =>
    freeInformationLoop s turns (s.links.next (.block block)) (info.count (blockSize s block))

/-- `_Heap_Get_free_information`. -/
def getFreeInformation (turns : Nat) (s : State) : Option Information :=
  freeInformationLoop s turns (freeListFirst s) default

variable {s : State} {as bs all : List Block} {b : Block} {live : List Nat} {turns start : Nat}

/-! ## The walk through the blocks -/

/-- A visitor that does not stop sees the blocks one after the other. -/
theorem Formed.iterateLoop_eq {β : Type} (visitor : Nat → Nat → Bool → β → Bool × β)
    (hstop : ∀ x size used arg, (visitor x size used arg).1 = false) :
    ∀ (bs as : List Block) (turns start : Nat) (arg : β),
      Formed s (as ++ (bs ++ [s.geometry.endBlock])) →
      (∀ b ∈ (bs ++ [s.geometry.endBlock]).head?, b.begin = start) → bs.length ≤ turns →
      iterateLoop visitor s turns start arg =
        some (bs.foldl (fun arg b => (visitor b.begin b.size b.used arg).2) arg) := by
  intro bs
  induction bs with
  | nil =>
    intro as turns start arg h hstart hturns
    have hlast : s.lastBlock = start := hstart s.geometry.endBlock rfl
    cases turns with
    | zero => simp [iterateLoop, hlast]
    | succ turns => simp [iterateLoop, hlast]
  | cons b bs ih =>
    intro as turns start arg h hstart hturns
    cases turns with
    | zero => simp at hturns
    | succ turns =>
      have hbegin : b.begin = start := hstart b rfl
      subst hbegin
      have hb : b ∈ as ++ (b :: bs ++ [s.geometry.endBlock]) := by simp
      have hsplit : ∃ n ds, bs ++ [s.geometry.endBlock] = n :: ds := by
        cases bs with
        | nil => exact ⟨_, _, rfl⟩
        | cons c bs => exact ⟨_, _, rfl⟩
      obtain ⟨n, ds, hrest⟩ := hsplit
      have hnext : Formed s (as ++ b :: n :: ds) := by
        rw [← hrest]
        exact h
      have hnextBegin : blockAt b.begin b.size = n.begin := hnext.layout.inner.blockAt h.layout.fits
      have hused : Heap.isPrevUsed s n.begin = b.used := by
        have hisUsed := hnext.isUsed (b := b) (by simp)
        rwa [Heap.isUsed, hnext.blockSize (b := b) (by simp), hnextBegin] at hisUsed
      have hne : b.begin ≠ s.lastBlock := by
        have hle : n.begin ≤ s.lastBlock := hnext.layout.inner.next_le
        have hsum := hnext.layout.inner.next
        have hpos := (h.layout.tiles.mem hb).2.1
        omega
      have hwalk := ih (as ++ [b]) turns n.begin (visitor b.begin b.size b.used arg).2
        (by simpa using h) (by rw [hrest]; simp) (by simpa using hturns)
      simp only [iterateLoop, hne, if_false, h.blockSize hb, hnextBegin, hused, hstop,
        Bool.false_eq_true, hwalk, List.foldl_cons]

/-- The number of the used blocks and of the free ones, and the size of the free ones. -/
theorem counted_blocks (bs : List Block) (info : InformationBlock) :
    let info' := bs.foldl (fun info b => (getInformationVisitor b.begin b.size b.used info).2) info
    info'.Free.number = info.Free.number + BitVec.ofNat 32 (frees bs).length ∧
      info'.Free.total = info.Free.total + BitVec.ofNat 32 (freeTotal bs) ∧
      info'.Used.number = info.Used.number + BitVec.ofNat 32 (usedLines bs).length := by
  induction bs generalizing info with
  | nil => simp [freeTotal, usedLines]
  | cons b bs ih =>
    obtain ⟨hnumber, htotal, hused⟩ := ih (getInformationVisitor b.begin b.size b.used info).2
    simp only [List.foldl_cons] at hnumber htotal hused ⊢
    rw [hnumber, htotal, hused]
    cases huse : b.used with
    | true =>
      simp [getInformationVisitor, Information.count, huse, BitVec.ofNat_add, BitVec.add_assoc,
        BitVec.add_comm]
    | false =>
      simp [getInformationVisitor, Information.count, huse, BitVec.ofNat_add, BitVec.add_assoc,
        BitVec.add_comm]

theorem WellFormed.getInformation_eq (h : WellFormed s bs) (hturns : bs.length ≤ turns) :
    ∃ info, getInformation turns s = some info ∧ info.Stats = s.stats ∧
      info.Free.number = BitVec.ofNat 32 (frees bs).length ∧
      info.Free.total = BitVec.ofNat 32 (freeTotal bs) ∧
      info.Used.number = BitVec.ofNat 32 (usedLines bs).length := by
  have hstart : ∀ b ∈ (bs ++ [s.geometry.endBlock]).head?, b.begin = s.firstBlock := by
    intro b hb
    obtain ⟨cs, hcs⟩ := List.head?_eq_some_iff.mp hb
    have hlayout := h.layout
    rw [hcs] at hlayout
    exact hlayout.head_begin
  have hwalk := Formed.iterateLoop_eq getInformationVisitor (fun _ _ _ _ => rfl) bs []
    turns s.firstBlock default h hstart hturns
  obtain ⟨hnumber, htotal, hused⟩ := counted_blocks bs default
  refine ⟨_, by rw [getInformation, iterate, hwalk]; rfl, rfl, ?_, ?_, ?_⟩
  · exact hnumber.trans (BitVec.zero_add _)
  · exact htotal.trans (BitVec.zero_add _)
  · exact hused.trans (BitVec.zero_add _)

/-! ## The walk through the free list -/

theorem freeInformationLoop_eq {fl : List Nat} {p : Pointer} {info : Information}
    (h : (p :: (fl.map Pointer.block ++ [Pointer.freeList])).IsChain s.links.Linked)
    (hturns : fl.length ≤ turns) :
    freeInformationLoop s turns (s.links.next p) info =
      some (fl.foldl (fun info x => info.count (Heap.blockSize s x)) info) := by
  induction fl generalizing p turns info with
  | nil =>
    have hnext : s.links.next p = .freeList := (List.isChain_cons_cons.mp h).1.1
    rw [hnext]
    cases turns <;> rfl
  | cons x fl ih =>
    obtain ⟨hlinked, hrest⟩ := List.isChain_cons_cons.mp h
    have hnext : s.links.next p = .block x := hlinked.1
    cases turns with
    | zero => simp at hturns
    | succ turns =>
      rw [hnext, freeInformationLoop]
      exact ih hrest (by simpa using hturns)

theorem counted_frees (s : State) (fl : List Nat) (info : Information) :
    let info' := fl.foldl (fun info x => info.count (Heap.blockSize s x)) info
    info'.number = info.number + BitVec.ofNat 32 fl.length ∧
      info'.total = info.total + BitVec.ofNat 32 (fl.map (Heap.blockSize s)).sum := by
  induction fl generalizing info with
  | nil => simp
  | cons x fl ih =>
    obtain ⟨hnumber, htotal⟩ := ih (info.count (Heap.blockSize s x))
    simp only [List.foldl_cons] at hnumber htotal ⊢
    rw [hnumber, htotal]
    simp only [Information.count, List.length_cons, List.map_cons, List.sum_cons, BitVec.ofNat_add]
    constructor <;> ac_rfl

/-- The sizes of the free blocks add up to the free size. -/
theorem Formed.sum_frees (h : Formed s all) : ((frees all).map (Heap.blockSize s)).sum = freeTotal all := by
  have hsizes : (frees all).map (Heap.blockSize s) = (all.filter (! ·.used)).map Block.size := by
    rw [frees, List.map_map]
    apply List.map_congr_left
    intro b hb
    exact h.blockSize (List.mem_of_mem_filter hb)
  rw [hsizes, freeTotal]

theorem WellFormed.getFreeInformation_eq (h : WellFormed s bs) (hturns : bs.length ≤ turns) :
    ∃ info, getFreeInformation turns s = some info ∧
      info.number = BitVec.ofNat 32 (frees bs).length ∧
      info.total = BitVec.ofNat 32 (freeTotal bs) := by
  have hlast : s.geometry.endBlock.used = true := rfl
  have hfrees : frees (bs ++ [s.geometry.endBlock]) = frees bs := by simp [frees, hlast]
  have htotalEq : freeTotal (bs ++ [s.geometry.endBlock]) = freeTotal bs := by
    simp [freeTotal, hlast]
  obtain ⟨fl, hperm, hring⟩ := h.freeList
  rw [hfrees] at hperm
  have hlength : fl.length ≤ turns := by
    rw [hperm.length_eq]
    exact (length_frees_le bs).trans hturns
  obtain ⟨hnumber, htotal⟩ := counted_frees s fl default
  refine ⟨_, freeInformationLoop_eq hring.linked hlength, ?_, ?_⟩
  · rw [hnumber, hperm.length_eq]
    exact BitVec.zero_add _
  · rw [htotal, (hperm.map _).sum_eq, ← hfrees, Formed.sum_frees h, htotalEq]
    exact BitVec.zero_add _

end Rtems.Heap
