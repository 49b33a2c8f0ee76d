import Rtems.Scheduler.Model

/-!
# The ready queues

The four places that say which threads are ready agree: the thread states, the
chains, the bit map and the pointers of each thread into them.  An operation
takes a thread off its chain, changes it, and puts it back; in between, the
queues are in order for all the other threads.
-/

namespace Rtems.Scheduler

variable {Tid : Type} [DecidableEq Tid] {s : State Tid} {t u : Tid} {p : Nat}

/-! ## Changing a thread -/

theorem onThread_self (f : ThreadControl → ThreadControl) :
    (s.onThread t f).threads t = f (s.threads t) := Function.update_self ..

theorem onThread_other (f : ThreadControl → ThreadControl) (h : u ≠ t) :
    (s.onThread t f).threads u = s.threads u := Function.update_of_ne h ..

/-! ## The invariant -/

/-- The node of a thread points to the chain and the bits of its priority. -/
structure Placed (c : ThreadControl) : Prop where
  priority : c.currentPriority < 256
  chain : c.readyChain = c.currentPriority
  map : c.priorityMap = BitMap.information c.currentPriority

/-- The chains hold the threads of a set, in the order of their times. -/
structure Chains (s : State Tid) (member : Tid → Prop) : Prop where
  bits : Exact s.bitMap fun p => s.ready p ≠ []
  mem : ∀ p t, t ∈ s.ready p ↔ member t ∧ s.IsReady t ∧ s.prio t = p
  fifo : ∀ p, (s.ready p).Pairwise fun t u => s.since t < s.since u
  clock : ∀ t, -(s.clock : Int) ≤ s.since t ∧ s.since t ≤ s.clock

/-- The ready queues in order. -/
structure Queues (s : State Tid) : Prop where
  placed : ∀ t, Placed (s.threads t)
  chains : Chains s fun _ => True

/-- The ready queues in order for all threads but `t`, which is on no chain. -/
structure Detached (t : Tid) (s : State Tid) : Prop where
  placed : ∀ u ≠ t, Placed (s.threads u)
  chains : Chains s (· ≠ t)

section

omit [DecidableEq Tid]

theorem Chains.nodup {member : Tid → Prop} (h : Chains s member) : (s.ready p).Nodup :=
  (h.fifo p).imp fun hlt e => absurd (e ▸ hlt) (Int.lt_irrefl _)

theorem Queues.mem_iff (h : Queues s) : t ∈ s.ready p ↔ s.IsReady t ∧ s.prio t = p := by
  rw [h.chains.mem, true_and]

/-! ## Taking a thread off its chain -/

/-- A thread that is not ready is on no chain. -/
theorem Queues.detach (h : Queues s) (ht : ¬ s.IsReady t) : Detached t s where
  placed u _ := h.placed u
  chains :=
    { bits := h.chains.bits
      mem := fun p u => by
        rw [h.mem_iff]
        refine ⟨fun hu => ⟨?_, hu⟩, And.right⟩
        rintro rfl
        exact ht hu.1
      fifo := h.chains.fifo
      clock := h.chains.clock }

end

/-- The chain of the thread loses it, whether it was the only one or not. -/
theorem readyQueueExtract_ready (h : t ∈ s.ready (s.threads t).readyChain) :
    (readyQueueExtract s t).ready = Function.update s.ready (s.threads t).readyChain
      ((s.ready (s.threads t).readyChain).erase t) := by
  unfold readyQueueExtract
  dsimp only
  split
  next hlen =>
    obtain ⟨a, ha⟩ := List.length_eq_one_iff.mp hlen
    rw [ha, List.mem_singleton] at h
    rw [ha, h, List.erase_cons_head]
  next => rfl

/-- Nothing but the chains and the bit map changes. -/
theorem readyQueueExtract_frame : readyQueueExtract s t = { s with
    ready := (readyQueueExtract s t).ready, bitMap := (readyQueueExtract s t).bitMap } := by
  unfold readyQueueExtract
  dsimp only
  split <;> rfl

theorem readyQueueExtract_threads : (readyQueueExtract s t).threads = s.threads := by
  rw [readyQueueExtract_frame]

theorem readyQueueExtract_heir : (readyQueueExtract s t).heir = s.heir := by
  rw [readyQueueExtract_frame]

theorem readyQueueExtract_clock : (readyQueueExtract s t).clock = s.clock := by
  rw [readyQueueExtract_frame]

theorem readyQueueExtract_since : (readyQueueExtract s t).since = s.since := by
  rw [readyQueueExtract_frame]

theorem Queues.extract_bits (h : Queues s) (ht : s.IsReady t) :
    Exact (readyQueueExtract s t).bitMap fun p => (readyQueueExtract s t).ready p ≠ [] := by
  have hpl := h.placed t
  have hmem : t ∈ s.ready (s.threads t).readyChain := h.mem_iff.mpr ⟨ht, hpl.chain.symm⟩
  rw [readyQueueExtract_ready hmem]
  unfold readyQueueExtract
  dsimp only
  split
  next hlen =>
    have hnil : (s.ready (s.threads t).readyChain).erase t = [] := by
      rw [← List.length_eq_zero_iff, List.length_erase_of_mem hmem, hlen]
    rw [hpl.map, hnil, hpl.chain]
    refine (h.chains.bits.remove hpl.priority).congr fun p _ => ?_
    rcases eq_or_ne p (s.threads t).currentPriority with rfl | hne
    · rw [Function.update_self]
      exact ⟨fun hx => absurd rfl hx.1, fun hx => absurd rfl hx⟩
    · rw [Function.update_of_ne hne]
      exact and_iff_right hne
  next hlen =>
    refine h.chains.bits.congr fun p _ => ?_
    rcases eq_or_ne p (s.threads t).readyChain with rfl | hne
    · rw [Function.update_self]
      refine ⟨fun _ hnil => ?_, fun _ => List.ne_nil_of_mem hmem⟩
      have := List.length_erase_of_mem hmem
      have hpos := List.length_pos_of_mem hmem
      rw [hnil, List.length_nil] at this
      omega
    · rw [Function.update_of_ne hne]

/-- Extracting a ready thread. -/
theorem Queues.extract (h : Queues s) (ht : s.IsReady t) :
    Detached t (readyQueueExtract s t) := by
  have hpl := h.placed t
  have hmem : t ∈ s.ready (s.threads t).readyChain := h.mem_iff.mpr ⟨ht, hpl.chain.symm⟩
  have hready := readyQueueExtract_ready hmem
  have hthreads := readyQueueExtract_threads (s := s) (t := t)
  refine ⟨fun u _ => hthreads ▸ h.placed u, h.extract_bits ht, fun p u => ?_, fun p => ?_, ?_⟩
  · rw [State.IsReady, State.prio, hthreads, hready]
    change _ ↔ u ≠ t ∧ s.IsReady u ∧ s.prio u = p
    rw [← h.mem_iff]
    rcases eq_or_ne p (s.threads t).readyChain with rfl | hne
    · rw [Function.update_self, List.Nodup.mem_erase_iff h.chains.nodup]
    · rw [Function.update_of_ne hne]
      refine ⟨fun hu => ⟨?_, hu⟩, And.right⟩
      rintro rfl
      exact hne ((h.mem_iff.mp hu).2.symm.trans hpl.chain.symm)
  · rw [hready, readyQueueExtract_since]
    rcases eq_or_ne p (s.threads t).readyChain with rfl | hne
    · rw [Function.update_self]
      exact (h.chains.fifo _).sublist List.erase_sublist
    · rw [Function.update_of_ne hne]
      exact h.chains.fifo p
  · rw [readyQueueExtract_clock, readyQueueExtract_since]
    exact h.chains.clock

/-! ## Changing a thread that is on no chain -/

theorem Detached.onThread (h : Detached t s) (f : ThreadControl → ThreadControl) :
    Detached t (s.onThread t f) where
  placed u hu := by
    rw [onThread_other f hu]
    exact h.placed u hu
  chains :=
    { bits := h.chains.bits
      mem := fun p u => by
        change u ∈ s.ready p ↔ _
        rw [h.chains.mem]
        refine and_congr_right fun hu => ?_
        rw [State.IsReady, State.IsReady, State.prio, State.prio, onThread_other f hu]
      fifo := h.chains.fifo
      clock := h.chains.clock }

/-! ## Putting a thread back -/

section

omit [DecidableEq Tid]

/-- A thread that is not ready stays off the chains. -/
theorem Detached.leave (h : Detached t s) (hp : Placed (s.threads t)) (ht : ¬ s.IsReady t) :
    Queues s where
  placed u := by
    rcases eq_or_ne u t with rfl | hne
    · exact hp
    · exact h.placed u hne
  chains :=
    { bits := h.chains.bits
      mem := fun p u => by
        rw [h.chains.mem]
        refine ⟨fun hu => ⟨trivial, hu.2⟩, fun hu => ⟨?_, hu.2⟩⟩
        rintro rfl
        exact ht hu.2.1
      fifo := h.chains.fifo
      clock := h.chains.clock }

end

theorem Detached.since_eq (h : Detached t s) {time : Int} (hu : u ∈ s.ready p) :
    Function.update s.since t time u = s.since u := by
  refine Function.update_of_ne ?_ ..
  exact ((h.chains.mem p u).mp hu).1

theorem Detached.fifo_update (h : Detached t s) (time : Int) :
    (s.ready p).Pairwise fun u v =>
      Function.update s.since t time u < Function.update s.since t time v := by
  refine (h.chains.fifo p).imp_of_mem fun {a b} ha hb hlt => ?_
  rw [h.since_eq ha, h.since_eq hb]
  exact hlt

/-- Putting a ready thread on its chain at a place that its time tells. -/
theorem Detached.put (h : Detached t s) (hp : Placed (s.threads t)) (ht : s.IsReady t)
    {chain : List Tid} {time : Int} (hmem : ∀ u, u ∈ chain ↔ u = t ∨ u ∈ s.ready (s.prio t))
    (hfifo : chain.Pairwise fun u v =>
      Function.update s.since t time u < Function.update s.since t time v)
    (hlo : -((s.clock + 1 : Nat) : Int) ≤ time) (hhi : time ≤ (s.clock + 1 : Nat)) :
    Queues { s with
      ready := Function.update s.ready (s.threads t).readyChain chain
      bitMap := s.bitMap.add (s.threads t).priorityMap
      clock := s.clock + 1
      since := Function.update s.since t time } where
  placed u := by
    rcases eq_or_ne u t with rfl | hne
    · exact hp
    · exact h.placed u hne
  chains := by
    refine ⟨?_, fun q u => ?_, fun q => ?_, fun u => ?_⟩
    · dsimp only
      rw [hp.map, hp.chain]
      refine (h.chains.bits.add hp.priority).congr fun q _ => ?_
      rcases eq_or_ne q (s.threads t).currentPriority with rfl | hne
      · rw [Function.update_self]
        exact ⟨fun _ => List.ne_nil_of_mem ((hmem t).mpr (.inl rfl)), fun _ => .inl rfl⟩
      · rw [Function.update_of_ne hne]
        exact ⟨fun hx => hx.resolve_left hne, .inr⟩
    · change u ∈ Function.update s.ready (s.threads t).readyChain chain q ↔
        True ∧ s.IsReady u ∧ s.prio u = q
      rw [true_and, hp.chain]
      rcases eq_or_ne q (s.threads t).currentPriority with rfl | hne
      · rw [Function.update_self, hmem, h.chains.mem]
        refine ⟨?_, fun hu => ?_⟩
        · rintro (rfl | hu)
          · exact ⟨ht, rfl⟩
          · exact hu.2
        · rcases eq_or_ne u t with rfl | hne
          · exact .inl rfl
          · exact .inr ⟨hne, hu⟩
      · rw [Function.update_of_ne hne, h.chains.mem]
        refine ⟨And.right, fun hu => ⟨?_, hu⟩⟩
        rintro rfl
        exact hne hu.2.symm
    · change (Function.update s.ready (s.threads t).readyChain chain q).Pairwise _
      rw [hp.chain]
      rcases eq_or_ne q (s.threads t).currentPriority with rfl | hne
      · rw [Function.update_self]
        exact hfifo
      · rw [Function.update_of_ne hne]
        exact h.fifo_update time
    · change _ ≤ Function.update s.since t time u ∧ Function.update s.since t time u ≤ _
      rcases eq_or_ne u t with rfl | hne
      · rw [Function.update_self]
        exact ⟨hlo, hhi⟩
      · rw [Function.update_of_ne hne]
        have := h.chains.clock u
        dsimp only
        omega

theorem Detached.enqueue (h : Detached t s) (hp : Placed (s.threads t)) (ht : s.IsReady t) :
    Queues (readyQueueEnqueue s t) := by
  refine h.put hp ht (fun u => ?_) ?_ (by omega) (by omega)
  · rw [List.mem_append, List.mem_singleton, hp.chain, or_comm]
    rfl
  · refine List.pairwise_append.mpr ⟨h.fifo_update _, List.pairwise_singleton .., ?_⟩
    intro u hu v hv
    rw [List.mem_singleton] at hv
    rw [hv, h.since_eq hu, Function.update_self]
    have := h.chains.clock u
    omega

theorem Detached.enqueueFirst (h : Detached t s) (hp : Placed (s.threads t))
    (ht : s.IsReady t) : Queues (readyQueueEnqueueFirst s t) := by
  refine h.put hp ht (fun u => ?_) ?_ (by omega) (by omega)
  · rw [List.mem_cons, hp.chain]
    rfl
  · refine List.pairwise_cons.mpr ⟨fun u hu => ?_, h.fifo_update _⟩
    rw [h.since_eq hu, Function.update_self]
    have := h.chains.clock u
    omega

end Rtems.Scheduler
