import Rtems.Lib.Runs

/-!
# Partitions of fixed size buffers

The model of `partcreate.c`, `partgetbuffer.c`, `partreturnbuffer.c`, the inline
routines of `partimpl.h` and `address.h` that they use, and `_Chain_Initialize`.
Addresses and counters are machine words.  A thread has dispatching disabled
from `_Partition_Get` to `_Objects_Put`, so a call is one step.  The free
buffers are a list, in the order of the chain that runs through them.
-/

namespace Rtems.PartitionManager

open Lib

/-- `void *` and `uint32_t`. -/
abbrev Word := BitVec 32

/-- `rtems_status_code`. -/
inductive StatusCode where
  | successful
  | tooMany
  | invalidName
  | invalidSize
  | invalidAddress
  | unsatisfied
deriving DecidableEq, Repr

/-- `CPU_ALIGNMENT` and `CPU_PARTITION_ALIGNMENT`. -/
def cpuAlignment : Word := 8

/-- `Partition_Control`. -/
structure PartitionControl where
  startingAddress : Word
  length : Word
  bufferSize : Word
  numberOfUsedBlocks : Word
  /-- `Memory`, the chain of the free buffers. -/
  memory : List Word
deriving DecidableEq, Repr

/-! ## The inline routines -/

/-- `_Addresses_Add_offset`. -/
def addOffset (base offset : Word) : Word := base + offset

/-- `_Addresses_Subtract`. -/
def subtract (left right : Word) : Word := left - right

/-- `_Addresses_Is_aligned`. -/
def isAligned (address : Word) : Bool := address % cpuAlignment == 0

/-- `_Addresses_Is_in_range`. -/
def isInRange (address base limit : Word) : Bool :=
  decide (base ≤ address) && decide (address ≤ limit)

/-- `_Partition_Is_buffer_size_aligned`. -/
def isBufferSizeAligned (bufferSize : Word) : Bool := bufferSize % cpuAlignment == 0

/-- `_Partition_Is_buffer_on_boundary`. -/
def isBufferOnBoundary (buffer : Word) (partition : PartitionControl) : Bool :=
  subtract buffer partition.startingAddress % partition.bufferSize == 0

/-- `_Partition_Is_buffer_valid`. -/
def isBufferValid (buffer : Word) (partition : PartitionControl) : Bool :=
  isInRange buffer partition.startingAddress
      (addOffset partition.startingAddress partition.length) &&
    isBufferOnBoundary buffer partition

/-- The nodes that the loop of `_Chain_Initialize` links. -/
def chainInitialize : Nat → Word → Word → List Word
  | 0, _, _ => []
  | count + 1, next, nodeSize => next :: chainInitialize count (addOffset next nodeSize) nodeSize

/-! ## The directives -/

/-- `rtems_partition_create`.  `allocated` is whether there was a free control
block. -/
def partitionCreate (name startingAddress length bufferSize : Word) (idNull allocated : Bool) :
    Except StatusCode PartitionControl :=
  if name = 0 then .error .invalidName
  else if startingAddress = 0 then .error .invalidAddress
  else if idNull then .error .invalidAddress
  else if length = 0 ∨ bufferSize = 0 ∨ length < bufferSize ∨ !isBufferSizeAligned bufferSize then
    .error .invalidSize
  else if !isAligned startingAddress then .error .invalidAddress
  else if !allocated then .error .tooMany
  else .ok {
    startingAddress := startingAddress
    length := length
    bufferSize := bufferSize
    numberOfUsedBlocks := 0
    memory := chainInitialize (length / bufferSize).toNat startingAddress bufferSize }

/-- `rtems_partition_get_buffer`, with the buffer it stores. -/
def partitionGetBuffer (partition : PartitionControl) (bufferNull : Bool) :
    StatusCode × Option Word × PartitionControl :=
  if bufferNull then (.invalidAddress, none, partition)
  else
    match partition.memory with
    | buffer :: rest =>
      (.successful, some buffer,
        { partition with
          memory := rest
          numberOfUsedBlocks := partition.numberOfUsedBlocks + 1 })
    | [] => (.unsatisfied, none, partition)

/-- `rtems_partition_return_buffer`. -/
def partitionReturnBuffer (partition : PartitionControl) (buffer : Word) :
    StatusCode × PartitionControl :=
  if isBufferValid buffer partition then
    (.successful,
      { partition with
        memory := partition.memory ++ [buffer]
        numberOfUsedBlocks := partition.numberOfUsedBlocks - 1 })
  else (.invalidAddress, partition)

/-! ## Runs -/

/-- A call of a directive for the partition. -/
inductive Call where
  | getBuffer (bufferNull : Bool)
  | returnBuffer (buffer : Word)
deriving DecidableEq, Repr

/-- A partition and the history of its buffers. -/
structure State where
  partition : PartitionControl
  /-- Every buffer that was handed out. -/
  handedOut : List Word
  /-- The addresses of the successful returns. -/
  returned : List Word
  /-- The buffers that are handed out and not returned. -/
  outstanding : List Word
deriving DecidableEq, Repr

def start (partition : PartitionControl) : State where
  partition := partition
  handedOut := []
  returned := []
  outstanding := []

/-- A call of a directive, and what it adds to the history. -/
def step (s : State) : Call → State
  | .getBuffer bufferNull =>
    match partitionGetBuffer s.partition bufferNull with
    | (_, some buffer, partition) =>
      { s with
        partition := partition
        handedOut := buffer :: s.handedOut
        outstanding := buffer :: s.outstanding }
    | (_, none, partition) => { s with partition := partition }
  | .returnBuffer buffer =>
    match partitionReturnBuffer s.partition buffer with
    | (.successful, partition) =>
      { s with
        partition := partition
        returned := buffer :: s.returned
        outstanding := s.outstanding.erase buffer }
    | (_, partition) => { s with partition := partition }

/-- The address of a buffer. -/
def bufferAt (partition : PartitionControl) (k : Nat) : Word :=
  partition.startingAddress + BitVec.ofNat 32 (k * partition.bufferSize.toNat)

/-- `length / buffer_size`. -/
def buffers (partition : PartitionControl) : Nat :=
  (partition.length / partition.bufferSize).toNat

/-- One of the `length / buffer_size` buffers. -/
def IsBuffer (partition : PartitionControl) (address : Word) : Prop :=
  ∃ k < buffers partition, address = bufferAt partition k

/-- The address just behind the last buffer. -/
def behindLast (partition : PartitionControl) : Word := bufferAt partition (buffers partition)

/-- A buffer at this address ends inside the area.  The offset counts from the
start of the area, which may go round the end of the address space. -/
def Inside (partition : PartitionControl) (address : Word) : Prop :=
  (subtract address partition.startingAddress).toNat + partition.bufferSize.toNat ≤
    partition.length.toNat

instance (partition : PartitionControl) (address : Word) : Decidable (Inside partition address) :=
  inferInstanceAs (Decidable (_ ≤ _))

/-- The buffers that were handed out are the partition's own, only their
addresses were returned with success, and the count is the one of the
outstanding buffers. -/
structure Sound (s : State) : Prop where
  handedOut : ∀ b ∈ s.handedOut, IsBuffer s.partition b ∧ Inside s.partition b
  returned : ∀ b ∈ s.returned, IsBuffer s.partition b
  used : s.partition.numberOfUsedBlocks.toNat = s.outstanding.length

/-- The call does not return the address behind the last buffer, and it does
not return a buffer that is free, unless the check rejects them. -/
def Proper (s : State) : Call → Prop
  | .getBuffer _ => True
  | .returnBuffer buffer =>
    isBufferValid buffer s.partition →
      buffer ≠ behindLast s.partition ∧ (IsBuffer s.partition buffer → buffer ∈ s.outstanding)

/-! ## The buffers of a partition -/

variable {p : PartitionControl} {s : State} {b : Word}

theorem length_chainInitialize (n : Nat) (next size : Word) :
    (chainInitialize n next size).length = n := by
  induction n generalizing next with
  | zero => rfl
  | succ n ih => rw [chainInitialize, List.length_cons, ih]

theorem mem_chainInitialize {n : Nat} {next size : Word} :
    b ∈ chainInitialize n next size → ∃ k < n, b = next + BitVec.ofNat 32 (k * size.toNat) := by
  induction n generalizing next with
  | zero => exact fun h => absurd h List.not_mem_nil
  | succ n ih =>
    intro h
    rcases List.mem_cons.mp h with rfl | h
    · exact ⟨0, Nat.succ_pos n, by simp⟩
    · obtain ⟨k, hk, rfl⟩ := ih h
      refine ⟨k + 1, Nat.succ_lt_succ hk, ?_⟩
      unfold addOffset
      apply BitVec.eq_of_toNat_eq
      simp only [BitVec.toNat_add, BitVec.toNat_ofNat, Nat.add_mul, Nat.one_mul]
      omega

theorem buffers_le (p : PartitionControl) :
    buffers p * p.bufferSize.toNat ≤ p.length.toNat := by
  unfold buffers
  rw [BitVec.toNat_udiv]
  exact Nat.div_mul_le_self _ _

theorem offset_le {k : Nat} (hk : k ≤ buffers p) : k * p.bufferSize.toNat ≤ p.length.toNat :=
  (Nat.mul_le_mul_right _ hk).trans (buffers_le p)

/-- The offset of a buffer is a multiple of the size, with nothing lost in the
machine word. -/
theorem offset_bufferAt {k : Nat} (hk : k ≤ buffers p) :
    (subtract (bufferAt p k) p.startingAddress).toNat = k * p.bufferSize.toNat := by
  have hle := offset_le hk
  have hlt := p.length.isLt
  unfold subtract bufferAt
  simp only [BitVec.toNat_sub, BitVec.toNat_add, BitVec.toNat_ofNat]
  omega

theorem bufferAt_inj {k l : Nat} (hpos : 0 < p.bufferSize.toNat) (hk : k ≤ buffers p)
    (hl : l ≤ buffers p) (h : bufferAt p k = bufferAt p l) : k = l := by
  have hmul : k * p.bufferSize.toNat = l * p.bufferSize.toNat := by
    rw [← offset_bufferAt hk, ← offset_bufferAt hl, h]
  exact Nat.eq_of_mul_eq_mul_right hpos hmul

theorem IsBuffer.inside (h : IsBuffer p b) : Inside p b := by
  obtain ⟨k, hk, rfl⟩ := h
  unfold Inside
  rw [offset_bufferAt hk.le]
  calc k * p.bufferSize.toNat + p.bufferSize.toNat = (k + 1) * p.bufferSize.toNat := by ring
    _ ≤ p.length.toNat := offset_le hk

theorem IsBuffer.ne_behindLast (hpos : 0 < p.bufferSize.toNat) (h : IsBuffer p b) :
    b ≠ behindLast p := by
  obtain ⟨k, hk, rfl⟩ := h
  intro heq
  exact hk.ne (bufferAt_inj hpos hk.le (Nat.le_refl _) heq)

/-- What the check of a returned address lets pass when the area ends inside
the address space: the addresses of the buffers, and the one behind the last.
When the area ends outside it lets nothing pass. -/
theorem isBufferValid_iff (hpos : 0 < p.bufferSize.toNat) :
    isBufferValid b p ↔ p.startingAddress.toNat + p.length.toNat < 2 ^ 32 ∧
      (IsBuffer p b ∨ b = behindLast p) := by
  have hb := b.isLt
  unfold isBufferValid isInRange isBufferOnBoundary subtract addOffset
  simp only [Bool.and_eq_true, decide_eq_true_eq, beq_iff_eq, BitVec.le_def, BitVec.toNat_add]
  constructor
  · rintro ⟨⟨hbase, hlimit⟩, hboundary⟩
    have hroom : p.startingAddress.toNat + p.length.toNat < 2 ^ 32 := by omega
    have hoffset : (b - p.startingAddress).toNat = b.toNat - p.startingAddress.toNat := by
      rw [BitVec.toNat_sub]
      omega
    have hmod : (b.toNat - p.startingAddress.toNat) % p.bufferSize.toNat = 0 := by
      rw [← hoffset, ← BitVec.toNat_umod, hboundary]
      rfl
    obtain ⟨k, hk⟩ := Nat.dvd_of_mod_eq_zero hmod
    have haddr : b = bufferAt p k := by
      apply BitVec.eq_of_toNat_eq
      unfold bufferAt
      rw [BitVec.toNat_add, BitVec.toNat_ofNat, Nat.mul_comm k, ← hk]
      omega
    refine ⟨hroom, ?_⟩
    by_cases hlt : k < buffers p
    · exact .inl ⟨k, hlt, haddr⟩
    · have hle : k ≤ buffers p := by
        unfold buffers
        rw [BitVec.toNat_udiv, Nat.le_div_iff_mul_le hpos, Nat.mul_comm, ← hk]
        omega
      right
      rw [haddr, Nat.le_antisymm hle (Nat.le_of_not_lt hlt)]
      rfl
  · rintro ⟨hroom, hcase⟩
    obtain ⟨k, hk, rfl⟩ : ∃ k ≤ buffers p, b = bufferAt p k := by
      rcases hcase with ⟨k, hk, rfl⟩ | rfl
      · exact ⟨k, hk.le, rfl⟩
      · exact ⟨buffers p, Nat.le_refl _, rfl⟩
    have hle := offset_le hk
    have haddr : (bufferAt p k).toNat = p.startingAddress.toNat + k * p.bufferSize.toNat := by
      unfold bufferAt
      rw [BitVec.toNat_add, BitVec.toNat_ofNat]
      omega
    refine ⟨⟨by omega, by omega⟩, ?_⟩
    apply BitVec.eq_of_toNat_eq
    rw [BitVec.toNat_umod, show (bufferAt p k - p.startingAddress).toNat = _ from offset_bufferAt hk]
    exact Nat.mul_mod_left _ _

/-! ## The calls keep the buffers together -/

/-- What holds between the calls of a proper run: the free and the outstanding
buffers are together the buffers of the partition. -/
structure Inv (s : State) : Prop where
  size_pos : 0 < s.partition.bufferSize.toNat
  perm : (s.partition.memory ++ s.outstanding).Perm
    (chainInitialize (buffers s.partition) s.partition.startingAddress s.partition.bufferSize)
  sound : Sound s

theorem Inv.isBuffer (h : Inv s) (hb : b ∈ s.partition.memory ++ s.outstanding) :
    IsBuffer s.partition b :=
  mem_chainInitialize (h.perm.mem_iff.mp hb)

theorem Inv.length_lt (h : Inv s) :
    s.partition.memory.length + s.outstanding.length < 2 ^ 32 := by
  rw [← List.length_append, h.perm.length_eq, length_chainInitialize]
  exact (s.partition.length / s.partition.bufferSize).isLt

/-- A created partition has its buffers free. -/
theorem Inv.create {name startingAddress length bufferSize : Word} {idNull allocated : Bool}
    (h : partitionCreate name startingAddress length bufferSize idNull allocated = .ok p) :
    Inv (start p) := by
  unfold partitionCreate at h
  split at h
  next => cases h
  next =>
    split at h
    next => cases h
    next =>
      split at h
      next => cases h
      next =>
        split at h
        next => cases h
        next hsizes =>
          split at h
          next => cases h
          next =>
            split at h
            next => cases h
            next =>
              cases h
              constructor
              case size_pos =>
                rw [Nat.pos_iff_ne_zero]
                intro hzero
                exact hsizes (.inr (.inl (BitVec.eq_of_toNat_eq hzero)))
              case perm =>
                rw [show (start _).outstanding = [] from rfl, List.append_nil]
                exact List.Perm.refl _
              case sound =>
                refine ⟨?_, ?_, rfl⟩
                · exact fun b hb => absurd hb List.not_mem_nil
                · exact fun b hb => absurd hb List.not_mem_nil

theorem Inv.getBuffer (h : Inv s) (bufferNull : Bool) : Inv (step s (.getBuffer bufferNull)) := by
  unfold step partitionGetBuffer
  cases bufferNull with
  | true => exact h
  | false =>
    cases hmem : s.partition.memory with
    | nil => exact h
    | cons buffer rest =>
      have hperm := h.perm
      have hlen := h.length_lt
      have hbuffer : IsBuffer s.partition buffer := by
        refine h.isBuffer ?_
        rw [hmem]
        exact List.mem_append_left _ List.mem_cons_self
      rw [hmem] at hperm hlen
      rw [List.length_cons] at hlen
      constructor
      case size_pos => exact h.size_pos
      case perm => exact List.perm_middle.trans hperm
      case sound =>
        constructor
        case handedOut =>
          intro b hb
          rcases List.mem_cons.mp hb with rfl | hb
          · exact ⟨hbuffer, hbuffer.inside⟩
          · exact h.sound.handedOut b hb
        case returned => exact h.sound.returned
        case used =>
          have hused := h.sound.used
          show (s.partition.numberOfUsedBlocks + 1).toNat = (buffer :: s.outstanding).length
          rw [BitVec.toNat_add, hused, List.length_cons]
          exact Nat.mod_eq_of_lt (show s.outstanding.length + 1 < 2 ^ 32 by omega)

theorem step_returnBuffer (hvalid : isBufferValid b s.partition = true) :
    step s (.returnBuffer b) =
      { s with
        partition := { s.partition with
          memory := s.partition.memory ++ [b]
          numberOfUsedBlocks := s.partition.numberOfUsedBlocks - 1 }
        returned := b :: s.returned
        outstanding := s.outstanding.erase b } := by
  simp only [step, partitionReturnBuffer, if_pos hvalid]

theorem step_returnBuffer_rejected (hvalid : ¬ isBufferValid b s.partition = true) :
    step s (.returnBuffer b) = s := by
  simp only [step, partitionReturnBuffer, if_neg hvalid]

theorem toNat_sub_one {x : Word} (hpos : 0 < x.toNat) : (x - 1).toNat = x.toNat - 1 := by
  have hlt := x.isLt
  have hone : (1 : Word).toNat = 1 := rfl
  rw [BitVec.toNat_sub, hone]
  omega

theorem Inv.returnBuffer (h : Inv s) (hproper : Proper s (.returnBuffer b)) :
    Inv (step s (.returnBuffer b)) := by
  by_cases hvalid : isBufferValid b s.partition = true
  · obtain ⟨hend, hfree⟩ := hproper hvalid
    have hbuffer : IsBuffer s.partition b :=
      ((isBufferValid_iff h.size_pos).mp hvalid).2.resolve_right hend
    have hmem := hfree hbuffer
    have hlen := List.length_erase_of_mem hmem
    have hpos := List.length_pos_of_mem hmem
    rw [step_returnBuffer hvalid]
    constructor
    case size_pos => exact h.size_pos
    case perm =>
      show ((s.partition.memory ++ [b]) ++ s.outstanding.erase b).Perm _
      rw [List.append_assoc, List.singleton_append]
      exact ((List.perm_cons_erase hmem).symm.append_left _).trans h.perm
    case sound =>
      constructor
      case handedOut => exact h.sound.handedOut
      case returned =>
        intro b' hb'
        rcases List.mem_cons.mp hb' with rfl | hb'
        · exact hbuffer
        · exact h.sound.returned b' hb'
      case used =>
        have hused := h.sound.used
        show (s.partition.numberOfUsedBlocks - 1).toNat = (s.outstanding.erase b).length
        rw [toNat_sub_one (by omega), hlen, hused]
  · rw [step_returnBuffer_rejected hvalid]
    exact h

theorem Inv.step (h : Inv s) {call : Call} (hproper : Proper s call) : Inv (step s call) := by
  cases call with
  | getBuffer bufferNull => exact h.getBuffer bufferNull
  | returnBuffer b => exact h.returnBuffer hproper

/-- A call that is not proper breaks the count. -/
theorem Inv.proper_of_sound (h : Inv s) {call : Call} (hsound : Sound (PartitionManager.step s call)) :
    Proper s call := by
  cases call with
  | getBuffer bufferNull => exact trivial
  | returnBuffer b =>
    intro hvalid
    have hmem : b ∈ s.outstanding := by
      by_contra hfree
      have hused := hsound.used
      rw [step_returnBuffer hvalid] at hused
      simp only [List.erase_of_not_mem hfree, ← h.sound.used] at hused
      have hlt := s.partition.numberOfUsedBlocks.isLt
      have hone : (1 : Word).toNat = 1 := rfl
      rw [BitVec.toNat_sub, hone] at hused
      omega
    have hbuffer := h.isBuffer (List.mem_append_right _ hmem)
    exact ⟨hbuffer.ne_behindLast h.size_pos, fun _ => hmem⟩

/-! ## Runs -/

/-- A run on a created partition stays sound in all of its states if and only
if no call returns the address behind the last buffer, which the check lets
pass, or a buffer that is free. -/
theorem buffers_sound {name startingAddress length bufferSize : Word} {idNull allocated : Bool}
    (h : partitionCreate name startingAddress length bufferSize idNull allocated = .ok p)
    (calls : List Call) :
    (∀ s ∈ states step (start p) calls, Sound s) ↔ Along step Proper (start p) calls := by
  refine forall_states_iff ?_ ?_ ?_ (Inv.create h)
  · exact fun _ hinv => hinv.sound
  · exact fun _ _ hinv hproper => hinv.step hproper
  · exact fun _ _ hinv hsound => hinv.proper_of_sound hsound

/-- Two buffers at 4096, none of them handed out. -/
def twoBuffers : PartitionControl where
  startingAddress := 4096
  length := 16
  bufferSize := 8
  numberOfUsedBlocks := 0
  memory := [4096, 4104]

/-- A run that gets a buffer and returns it stays sound. -/
theorem buffers_sound_returned :
    (step (step (start twoBuffers) (.getBuffer false)) (.returnBuffer 4096)).returned = [4096] ∧
    ∀ s ∈ states step (start twoBuffers) [.getBuffer false, .returnBuffer 4096], Sound s := by
  have hcreate : partitionCreate 1 4096 16 8 false true = .ok twoBuffers := by decide
  refine ⟨by decide, (buffers_sound hcreate _).mpr ⟨trivial, ?_, trivial⟩⟩
  exact fun _ => ⟨by decide, fun _ => by decide⟩

/-- The address behind the last buffer is returned with success, though it is
none of the buffers.  The count goes wrong, and the third buffer handed out lies
outside the area. -/
theorem buffers_sound_behindLast :
    partitionCreate 1 4096 16 8 false true = .ok twoBuffers ∧
    let s := step (start twoBuffers) (.returnBuffer 4112)
    s.returned = [4112] ∧ ¬ IsBuffer s.partition 4112 ∧
      s.partition.numberOfUsedBlocks.toNat ≠ s.outstanding.length ∧
      (step (step (step s (.getBuffer false)) (.getBuffer false)) (.getBuffer false)).handedOut =
        [4112, 4104, 4096] ∧
      ¬ Inside s.partition 4112 := by
  refine ⟨by decide, by decide, ?_, by decide, by decide, by decide⟩
  intro h
  exact h.ne_behindLast (by decide) (by decide)

end Rtems.PartitionManager
