import Rtems.Heap.Contents
import Rtems.Heap.Runs

/-!
# The callers of a heap

The callers own the areas that `_Heap_Allocate` returned, and write to them.  No call
for another area changes the bytes of theirs.
-/

namespace Rtems.Heap

open Lib

/-- A heap, the begins of the areas that are owned, and the sizes that were asked for. -/
structure Client where
  heap : State
  live : List Nat
  asked : Nat → Nat

inductive Call where
  | allocate (size : Nat)
  | free (allocBegin : Nat)
deriving DecidableEq, Repr

/-- Only areas that are owned are released. -/
def serve (turns : Nat) (c : Client) : Call → Client
  | .allocate size =>
    match Heap.allocate turns c.heap size with
    | some (heap, p) =>
      if p = 0 then { c with heap := heap }
      else ⟨heap, p :: c.live, Function.update c.asked p size⟩
    | none => c
  | .free p =>
    if p ∈ c.live then { c with heap := (Heap.free c.heap p).1, live := c.live.erase p } else c

variable {c : Client}

/-- Each area has the size that was asked for, in a block of its own. -/
structure Owned (c : Client) : Prop where
  held : Held c.heap c.live
  room : ∀ p ∈ c.live, ∃ m, Usable c.heap p m ∧ c.asked p ≤ m

/-- The areas that stay owned keep their bytes. -/
def Kept (c c' : Client) : Prop :=
  ∀ q ∈ c.live, q ∈ c'.live → Untouched c.heap c'.heap q (q + c.asked q)

theorem Owned.kept (h : Owned c) {heap : State} {live : List Nat} {asked : Nat → Nat}
    (hheld : Held heap live)
    (hsame : ∀ q ∈ c.live, q ∈ live → asked q = c.asked q ∧ Preserves c.heap heap q)
    (hnew : ∀ q ∈ live, q ∉ c.live → ∃ m, Usable heap q m ∧ asked q ≤ m) :
    Owned ⟨heap, live, asked⟩ ∧ Kept c ⟨heap, live, asked⟩ := by
  refine ⟨⟨hheld, fun q hq => ?_⟩, fun q hq hq' => ?_⟩
  · by_cases hin : q ∈ c.live
    · obtain ⟨heq, hpres⟩ := hsame q hin hq
      obtain ⟨m, hm, hle⟩ := h.room q hin
      exact ⟨m, (hpres m hm).1, heq.trans_le hle⟩
    · exact hnew q hq hin
  · obtain ⟨m, hm, hle⟩ := h.room q hq
    exact ((hsame q hq hq').2 m hm).2.mono (Nat.le_refl _) (by omega)

theorem Owned.serve (h : Owned c) (turns : Nat) (e : Call) :
    Owned (Heap.serve turns c e) ∧ Kept c (Heap.serve turns c e) := by
  have hstay : Owned c ∧ Kept c c := ⟨h, fun q _ _ => .refl _ _ _⟩
  cases e with
  | allocate size =>
    simp only [Heap.serve]
    cases hrun : Heap.allocate turns c.heap size with
    | none => exact hstay
    | some result =>
      obtain ⟨heap, p⟩ := result
      have hheld := h.held.allocate hrun
      obtain ⟨all, hformed, -⟩ := h.held
      have hpres := hformed.allocate_preserves hrun
      by_cases hp : p = 0
      · simp only [hp, if_true] at hheld ⊢
        exact h.kept hheld (fun q _ _ => ⟨rfl, hpres q⟩) fun q hq hnot => absurd hq hnot
      · simp only [hp, if_false] at hheld ⊢
        -- The begin of the new area is none of the others.
        have hne : ∀ q ∈ c.live, q ≠ p := by
          rintro q hq rfl
          exact hheld.line_ne List.mem_cons_self (by simpa using hq) rfl
        refine h.kept hheld (fun q hq _ => ⟨Function.update_of_ne (hne q hq) _ _, hpres q⟩) ?_
        intro q hq hnot
        obtain rfl := (List.mem_cons.mp hq).resolve_right hnot
        rw [Function.update_self]
        exact hformed.allocate_usable hrun hp
  | free p =>
    simp only [Heap.serve]
    split
    next hp =>
      obtain ⟨heap, heq, -, hheld⟩ := h.held.free hp
      have hpres := fun q hq => h.held.free_preserves hp (q := q) hq
      rw [heq] at hpres ⊢
      exact h.kept hheld (fun q _ hq => ⟨rfl, hpres q hq⟩)
        fun q hq hnot => absurd (List.mem_of_mem_erase hq) hnot
    next => exact hstay

theorem owned_states (h : Started ⟨c.heap, c.live⟩) (turns : Nat) (es : List Call) :
    ∀ c' ∈ states (serve turns) c es, Owned c' := by
  obtain ⟨all, hexact⟩ := h.sound
  have hstart : Owned c := ⟨hexact.areas, by simp [show c.live = [] from h.live]⟩
  have hrun : ∀ (c : Client) (es : List Call), Along (Heap.serve turns) (fun _ _ => True) c es := by
    intro c es
    induction es generalizing c with
    | nil => exact trivial
    | cons e es ih => exact ⟨trivial, ih _⟩
  exact forall_states (fun c e hc _ => (hc.serve turns e).1) hstart (hrun c es)

/-- In all states of a run, the areas that are owned have no byte in common, and whatever call comes
next, it changes no byte of an area that is owned before and after it. -/
theorem areas_kept (h : Started ⟨c.heap, c.live⟩) (turns : Nat) (es : List Call) :
    ∀ c' ∈ states (serve turns) c es,
      (∀ p ∈ c'.live, ∀ q ∈ c'.live.erase p, Apart p (c'.asked p) q (c'.asked q)) ∧
        ∀ e, Kept c' (serve turns c' e) := by
  intro c' hc'
  have howned := owned_states h turns es c' hc'
  refine ⟨fun p hp q hq => ?_, fun e => (howned.serve turns e).2⟩
  obtain ⟨m, hm, hpm⟩ := howned.room p hp
  obtain ⟨k, hk, hqk⟩ := howned.room q (List.mem_of_mem_erase hq)
  exact (howned.held.apart hp hq hm hk).imp (by omega) (by omega)

theorem areas_kept_small :
    let c := [Call.allocate 10, .allocate 20, .free 1008].foldl (serve 4) ⟨small, [], fun _ => 0⟩
    (∀ p ∈ c.live, ∀ q ∈ c.live.erase p, Apart p (c.asked p) q (c.asked q)) ∧
      ∀ e, Kept c (serve 4 c e) :=
  areas_kept small_started 4 _ _ mem_states_foldl

/-- In all states of a run, an allocation returns, and it finds an area if and only if a free block
has room for it. -/
theorem allocate_succeeds_iff (h : Started ⟨c.heap, c.live⟩) {turns : Nat} (hturns : 2 ^ 32 ≤ turns)
    (es : List Call) : ∀ c' ∈ states (serve turns) c es, ∃ bs, WellFormed c'.heap bs ∧
      ∀ size, ∃ heap p, Heap.allocate turns c'.heap size = some (heap, p) ∧
        (p ≠ 0 ↔ ∃ b ∈ bs, b.used = false ∧ size + allocBonus ≤ b.size) := by
  intro c' hc'
  have hheld := (owned_states h turns es c' hc').held
  obtain ⟨all, hformed, -⟩ := id hheld
  obtain ⟨bs, rfl⟩ := hformed.layout.exists_init
  refine ⟨bs, hformed, fun size => ?_⟩
  obtain ⟨⟨heap, p⟩, heq⟩ := hheld.allocate_isSome hturns size 0 0
  refine ⟨heap, p, heq, ?_⟩
  rw [← WellFormed.succeeds_iff hformed hturns (size + allocBonus ≤ ·)
    fun _ _ _ _ _ hsplit => hsplit.tryBlock_unaligned]
  refine ⟨fun hp => ⟨heap, p, heq, hp⟩, ?_⟩
  rintro ⟨heap', p', heq', hp'⟩
  obtain ⟨-, rfl⟩ := Prod.mk.inj (Option.some.inj (heq.symm.trans heq'))
  exact hp'

theorem allocate_succeeds_iff_small :
    let c := [Call.allocate 10, .allocate 20, .free 1008].foldl (serve (2 ^ 32)) ⟨small, [], fun _ => 0⟩
    ∃ bs, WellFormed c.heap bs ∧ ∀ size, ∃ heap p,
      Heap.allocate (2 ^ 32) c.heap size = some (heap, p) ∧
        (p ≠ 0 ↔ ∃ b ∈ bs, b.used = false ∧ size + allocBonus ≤ b.size) :=
  allocate_succeeds_iff (c := ⟨small, [], fun _ => 0⟩) small_started (Nat.le_refl _) _ _ mem_states_foldl

end Rtems.Heap
