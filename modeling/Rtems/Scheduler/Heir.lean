import Rtems.Scheduler.ReadyQueues

/-!
# The heir

The heir is updated incrementally: only if the thread that blocks is the heir
or executes, and only by a comparison of priorities if a thread is unblocked.
The comparison is enough as long as the heir is the first thread of the most
important chain.  A heir that is not preemptible need not be, and is replaced
by force by a thread of the pseudo ISR priority.
-/

namespace Rtems.Scheduler

variable {Tid : Type} [DecidableEq Tid] {s s' : State Tid} {t u : Tid} {p : Nat}

/-! ## The first thread -/

/-- The thread is the first one of the most important chain. -/
def First (s : State Tid) (t : Tid) : Prop :=
  (s.ready (s.prio t)).head? = some t ∧ ∀ p < s.prio t, s.ready p = []

section

omit [DecidableEq Tid]

theorem Queues.exists_first (h : Queues s) (ht : s.IsReady t) :
    ∃ u, readyQueueFirst s = some u ∧ s.IsReady u ∧ First s u := by
  have hne : s.ready (s.prio t) ≠ [] := List.ne_nil_of_mem (h.mem_iff.mpr ⟨ht, rfl⟩)
  obtain ⟨_, hset, hlow⟩ := h.chains.bits.getHighest (h.placed t).priority hne
  obtain ⟨u, hu⟩ := Option.isSome_iff_exists.mp (List.isSome_head?.mpr hset)
  obtain ⟨hready, hprio⟩ := h.mem_iff.mp (List.mem_of_head? hu)
  refine ⟨u, hu, hready, ?_, fun q hq => ?_⟩
  · rw [hprio]
    exact hu
  · rw [hprio] at hq
    exact not_not.mp (hlow q hq)

/-- The heir is ready, and the first thread unless it is not preemptible. -/
structure HeirOk (s : State Tid) : Prop where
  ready : s.IsReady s.heir
  first : (s.threads s.heir).isPreemptible = true → First s s.heir

/-- The heir stays in charge if it is not changed. -/
theorem HeirOk.congr (h : HeirOk s) (hheir : s'.heir = s.heir)
    (hthread : s'.threads s.heir = s.threads s.heir)
    (hfirst : First s s.heir → First s' s.heir) : HeirOk s' := by
  refine ⟨?_, fun hp => ?_⟩
  · rw [hheir, State.IsReady, hthread]
    exact h.ready
  · rw [hheir, hthread] at hp
    rw [hheir]
    exact hfirst (h.first hp)

end

theorem First.onThread (h : First s u) (hne : u ≠ t) (f : ThreadControl → ThreadControl) :
    First (s.onThread t f) u := by
  unfold First
  rw [State.prio, onThread_other f hne]
  exact h

structure Inv (s : State Tid) : Prop where
  queues : Queues s
  heir : HeirOk s

/-- A change of a thread that is not ready, neither before nor after. -/
theorem Inv.onThread (h : Inv s) (ht : ¬ s.IsReady t) {f : ThreadControl → ThreadControl}
    (hp : Placed (f (s.threads t))) (hf : (f (s.threads t)).currentState ≠ statesReady) :
    Inv (s.onThread t f) := by
  have hne : s.heir ≠ t := fun e => ht (e ▸ h.heir.ready)
  have hself : (s.onThread t f).threads t = f (s.threads t) := onThread_self f
  refine ⟨((h.queues.detach ht).onThread f).leave (hself ▸ hp) ?_, ?_⟩
  · rw [State.IsReady, hself]
    exact hf
  · exact h.heir.congr rfl (onThread_other f hne) fun hfirst => hfirst.onThread hne f

/-! ## Updating the heir -/

section

omit [DecidableEq Tid]

theorem Queues.heir (h : Queues s) (u : Tid) (d : Bool) :
    Queues { s with heir := u, dispatchNecessary := d } :=
  ⟨h.placed, h.chains.bits, h.chains.mem, h.chains.fifo, h.chains.clock⟩

end

theorem Queues.updateHeir (h : Queues s) (u : Tid) (force : Bool) :
    Queues (updateHeir s u force) := by
  unfold Scheduler.updateHeir
  split
  · exact h.heir u true
  · exact h

/-- The new heir, if it is not the old one that is kept. -/
theorem HeirOk.updateHeir {force : Bool}
    (hkeep : s.heir ≠ u → (s.threads s.heir).isPreemptible = false → force = false →
      s.IsReady s.heir)
    (hu : s.IsReady u)
    (hfirst : (s.threads u).isPreemptible = true →
      s.heir = u ∨ (s.threads s.heir).isPreemptible = true ∨ force = true → First s u) :
    HeirOk (updateHeir s u force) := by
  unfold Scheduler.updateHeir
  split
  next hc =>
    rw [Bool.or_eq_true] at hc
    exact ⟨hu, fun hp => hfirst hp (.inr hc.2)⟩
  next hc =>
    rcases eq_or_ne s.heir u with he | hne
    · exact ⟨he ▸ hu, fun hp => he ▸ hfirst (he ▸ hp) (.inl he)⟩
    · rw [not_and, Bool.not_eq_true, Bool.or_eq_false_iff] at hc
      obtain ⟨hp, hforce⟩ := hc hne
      refine ⟨hkeep hne hp hforce, fun hp' => ?_⟩
      rw [hp] at hp'
      cases hp'

/-- A new scheduling decision. -/
theorem Queues.schedule (h : Queues s) {force : Bool} (ht : s.IsReady t)
    (hkeep : force = false → s.IsReady s.heir) : Inv (scheduleBody s force) := by
  obtain ⟨u, hu, hready, hfirst⟩ := h.exists_first ht
  unfold scheduleBody
  rw [hu]
  exact ⟨h.updateHeir u force, .updateHeir (fun _ _ => hkeep) hready fun _ _ => hfirst⟩

/-! ## Block -/

/-- Extraction reads the node of the thread only. -/
theorem readyQueueExtract_onThread {f : ThreadControl → ThreadControl}
    (hc : ∀ c, (f c).readyChain = c.readyChain) (hm : ∀ c, (f c).priorityMap = c.priorityMap) :
    readyQueueExtract (s.onThread t f) t = (readyQueueExtract s t).onThread t f := by
  unfold readyQueueExtract
  dsimp only
  rw [onThread_self, hc, hm]
  change (if (s.ready (s.threads t).readyChain).length = 1 then _ else _) = _
  split <;> rfl

theorem First.extract (h : Queues s) (hf : First s u) (ht : s.IsReady t) (hne : u ≠ t) :
    First (readyQueueExtract s t) u := by
  have hmem : t ∈ s.ready (s.threads t).readyChain :=
    h.mem_iff.mpr ⟨ht, (h.placed t).chain.symm⟩
  unfold First
  rw [State.prio, readyQueueExtract_threads, readyQueueExtract_ready hmem]
  refine ⟨?_, fun q hq => ?_⟩
  · rcases eq_or_ne (s.threads u).currentPriority (s.threads t).readyChain with he | hx
    · obtain ⟨rest, hrest⟩ := List.head?_eq_some_iff.mp hf.1
      rw [he, Function.update_self, ← he]
      change ((s.ready (s.prio u)).erase t).head? = some u
      rw [hrest, List.erase_cons_tail (by simpa using hne)]
      rfl
    · rw [Function.update_of_ne hx]
      exact hf.1
  · have hnil := hf.2 q hq
    rcases eq_or_ne q (s.threads t).readyChain with rfl | hx
    · rw [Function.update_self, hnil]
      rfl
    · rw [Function.update_of_ne hx]
      exact hnil

theorem statesSet_ne_ready {a : BitVec 32} (b : BitVec 32) (ha : a ≠ 0#32) :
    statesSet a b ≠ statesReady := by
  intro he
  exact ha (BitVec.or_eq_zero_iff.mp he).2

theorem Inv.block (h : Inv s) {f : ThreadControl → ThreadControl} (ht : s.IsReady t)
    (hc : ∀ c, (f c).readyChain = c.readyChain) (hm : ∀ c, (f c).priorityMap = c.priorityMap)
    (hp : Placed (f (s.threads t))) (hf : (f (s.threads t)).currentState ≠ statesReady)
    (hu : ∃ u, u ≠ t ∧ s.IsReady u) : Inv (block (s.onThread t f) t) := by
  have hother : ∀ v, v ≠ t →
      ((readyQueueExtract s t).onThread t f).threads v = s.threads v := by
    intro v hv
    rw [onThread_other f hv, readyQueueExtract_threads]
  have hq : Queues ((readyQueueExtract s t).onThread t f) := by
    refine ((h.queues.extract ht).onThread f).leave ?_ ?_
    · rw [onThread_self, readyQueueExtract_threads]
      exact hp
    · rw [State.IsReady, onThread_self, readyQueueExtract_threads]
      exact hf
  unfold Scheduler.block
  rw [readyQueueExtract_onThread hc hm]
  dsimp only
  split
  next =>
    obtain ⟨u, hne, hu⟩ := hu
    refine hq.schedule (t := u) ?_ fun hf => by cases hf
    rw [State.IsReady, hother u hne]
    exact hu
  next hc =>
    rw [not_or] at hc
    have hheir : s.heir ≠ t := fun e => hc.2 (readyQueueExtract_heir.trans e)
    refine ⟨hq, h.heir.congr readyQueueExtract_heir (hother _ hheir) fun hfirst => ?_⟩
    exact (hfirst.extract h.queues ht hheir).onThread hheir f

theorem Inv.setState (h : Inv s) {state : BitVec 32} (hs : state ≠ 0#32)
    (hu : ∃ u, u ≠ t ∧ s.IsReady u) : Inv (setState s t state) := by
  have hp := h.queues.placed t
  unfold Scheduler.setState
  dsimp only
  split
  next ht =>
    exact h.block ht (fun _ => rfl) (fun _ => rfl) ⟨hp.priority, hp.chain, hp.map⟩
      (statesSet_ne_ready _ hs) hu
  next ht =>
    exact h.onThread ht ⟨hp.priority, hp.chain, hp.map⟩ (statesSet_ne_ready _ hs)

/-! ## Unblock -/

/-- The case in which a thread becomes the heir by force and is not the first. -/
def Overtakes (s : State Tid) (t : Tid) : Prop :=
  s.prio t = priorityPseudoIsr ∧ (s.threads t).isPreemptible = true ∧
    (s.threads s.heir).isPreemptible = false ∧ s.prio s.heir ≠ priorityPseudoIsr ∧
      s.ready priorityPseudoIsr ≠ []

theorem readyQueueEnqueue_ready (hp : Placed (s.threads t)) (q : Nat) :
    (readyQueueEnqueue s t).ready q =
      if q = s.prio t then s.ready q ++ [t] else s.ready q := by
  simp only [readyQueueEnqueue, hp.chain]
  change Function.update s.ready (s.prio t) (s.ready (s.prio t) ++ [t]) q = _
  rcases eq_or_ne q (s.prio t) with rfl | hne
  · rw [Function.update_self, if_pos rfl]
  · rw [Function.update_of_ne hne, if_neg hne]

/-- An empty chain and no chain before it: the thread unblocked is the first. -/
theorem First.enqueue_self (hp : Placed (s.threads t)) (hnil : ∀ q ≤ s.prio t, s.ready q = []) :
    First (readyQueueEnqueue s t) t := by
  refine ⟨?_, fun q hq => ?_⟩
  · change ((readyQueueEnqueue s t).ready (s.prio t)).head? = some t
    rw [readyQueueEnqueue_ready hp, if_pos rfl, hnil _ (Nat.le_refl _)]
    rfl
  · change q < s.prio t at hq
    rw [readyQueueEnqueue_ready hp, if_neg (Nat.ne_of_lt hq)]
    exact hnil q (Nat.le_of_lt hq)

/-- A thread that is not more important does not come first. -/
theorem First.enqueue_other (h : First s u) (hp : Placed (s.threads t))
    (hle : s.prio u ≤ s.prio t) : First (readyQueueEnqueue s t) u := by
  obtain ⟨rest, hrest⟩ := List.head?_eq_some_iff.mp h.1
  refine ⟨?_, fun q hq => ?_⟩
  · change ((readyQueueEnqueue s t).ready (s.prio u)).head? = some u
    rw [readyQueueEnqueue_ready hp, hrest]
    split <;> rfl
  · change q < s.prio u at hq
    rw [readyQueueEnqueue_ready hp, if_neg (Nat.ne_of_lt (Nat.lt_of_lt_of_le hq hle))]
    exact h.2 q hq

/-- Unblocking a thread that was put into the ready state. -/
theorem Inv.unblock (h : HeirOk s) (hd : Detached t s) (hp : Placed (s.threads t))
    (ht : s.IsReady t) (hne : s.heir ≠ t) (ho : ¬ Overtakes s t) : Inv (unblock s t) := by
  have hq := hd.enqueue hp ht
  unfold Scheduler.unblock
  dsimp only
  split
  next hlt =>
    change s.prio t < s.prio s.heir at hlt
    refine ⟨hq.updateHeir _ _, .updateHeir (fun _ _ _ => h.ready) ht fun hpre hcase => ?_⟩
    rcases hcase with he | hpre' | hforce
    · exact absurd he hne
    · refine First.enqueue_self hp fun q hle => ?_
      exact (h.first hpre').2 q (Nat.lt_of_le_of_lt hle hlt)
    · have hzero : s.prio t = priorityPseudoIsr := beq_iff_eq.mp hforce
      refine First.enqueue_self hp fun q hle => ?_
      rw [hzero] at hle hlt
      obtain rfl := Nat.eq_zero_of_le_zero hle
      by_contra hnil
      refine ho ⟨hzero, hpre, ?_, Nat.ne_of_gt hlt, hnil⟩
      rw [← Bool.not_eq_true]
      intro hpre'
      exact hnil ((h.first hpre').2 0 hlt)
  next hge =>
    refine ⟨hq, h.congr rfl rfl fun hfirst => hfirst.enqueue_other hp ?_⟩
    exact Nat.le_of_not_lt hge

/-- The clearing makes the thread ready. -/
def Readies (s : State Tid) (t : Tid) (state : BitVec 32) : Prop :=
  (s.threads t).currentState &&& state ≠ 0#32 ∧
    statesClear state (s.threads t).currentState = statesReady

theorem Inv.clearState (h : Inv s) {state : BitVec 32}
    (ho : Readies s t state → ¬ Overtakes s t) : Inv (clearState s t state) := by
  have hp := h.queues.placed t
  unfold Scheduler.clearState
  dsimp only
  split
  next hand =>
    have ht : ¬ s.IsReady t := by
      intro ht
      rw [State.IsReady] at ht
      rw [ht] at hand
      exact hand (BitVec.zero_and)
    have hne : s.heir ≠ t := fun e => ht (e ▸ h.heir.ready)
    split
    next hready =>
      refine Inv.unblock ?_ ((h.queues.detach ht).onThread _) ?_ ?_ hne ?_
      · exact h.heir.congr rfl (onThread_other _ hne) fun hfirst => hfirst.onThread hne _
      · rw [onThread_self]
        exact ⟨hp.priority, hp.chain, hp.map⟩
      · rw [State.IsReady, onThread_self]
        exact hready
      · have := ho ⟨hand, hready⟩
        unfold Overtakes State.prio at this ⊢
        rw [onThread_self, show (State.onThread s t _).heir = s.heir from rfl,
          onThread_other _ hne]
        exact this
    next hready => exact h.onThread ht ⟨hp.priority, hp.chain, hp.map⟩ hready
  next => exact h

/-! ## Change priority and yield -/

theorem Inv.schedulerChangePriority (h : Inv s) (ht : s.IsReady t) (hp : p < 256)
    (prependIt : Bool) : Inv (schedulerChangePriority
      (s.onThread t fun c => { c with currentPriority := p }) t p prependIt) := by
  unfold Scheduler.schedulerChangePriority readyQueueUpdate
  rw [readyQueueExtract_onThread (f := fun c => { c with currentPriority := p })
    (fun _ => rfl) (fun _ => rfl)]
  dsimp only
  have hd := ((h.queues.extract ht).onThread fun c => { c with currentPriority := p }).onThread
    fun c => { c with readyChain := p, priorityMap := BitMap.information p }
  generalize hr : State.onThread (State.onThread (readyQueueExtract s t) t _) t _ = r at hd ⊢
  have hself : r.threads t = { s.threads t with
      currentPriority := p, readyChain := p, priorityMap := BitMap.information p } := by
    rw [← hr, onThread_self, onThread_self, readyQueueExtract_threads]
  have hother : ∀ v, v ≠ t → r.threads v = s.threads v := by
    intro v hv
    rw [← hr, onThread_other _ hv, onThread_other _ hv, readyQueueExtract_threads]
  have hheir : r.heir = s.heir := by
    rw [← hr]
    exact readyQueueExtract_heir
  have hstate : ∀ v, s.IsReady v → r.IsReady v := by
    intro v hv
    rcases eq_or_ne v t with rfl | hne
    · rw [State.IsReady, hself]
      exact hv
    · rw [State.IsReady, hother v hne]
      exact hv
  have hpl : Placed (r.threads t) := by
    rw [hself]
    exact ⟨hp, rfl, rfl⟩
  have hready := hstate s.heir h.heir.ready
  rw [← hheir] at hready
  cases prependIt with
  | true => exact (hd.enqueueFirst hpl (hstate t ht)).schedule (hstate t ht) fun _ => hready
  | false => exact (hd.enqueue hpl (hstate t ht)).schedule (hstate t ht) fun _ => hready

theorem Inv.changePriority (h : Inv s) {filter : ThreadControl → Option Nat}
    (hf : ∀ c p, filter c = some p → p < 256) (prependIt : Bool) :
    Inv (changePriority s t filter prependIt) := by
  unfold Scheduler.changePriority
  split
  next => exact h
  next p hp =>
    dsimp only
    rw [onThread_self]
    split
    next ht => exact h.schedulerChangePriority ht (hf _ _ hp) prependIt
    next ht =>
      have hd := ((h.queues.detach ht).onThread fun c => { c with currentPriority := p }).onThread
        fun c => { c with readyChain := p, priorityMap := BitMap.information p }
      have hne : s.heir ≠ t := fun e => ht (e ▸ h.heir.ready)
      unfold readyQueueUpdate
      refine ⟨hd.leave ?_ ?_, h.heir.congr rfl ?_ fun hfirst =>
        (hfirst.onThread hne _).onThread hne _⟩
      · rw [onThread_self, onThread_self]
        exact ⟨hf _ _ hp, rfl, rfl⟩
      · rw [State.IsReady, onThread_self, onThread_self]
        exact ht
      · rw [onThread_other _ hne, onThread_other _ hne]

/-- The chain of a single thread need not be touched. -/
theorem yield_ready (hmem : t ∈ s.ready p) :
    (if (s.ready p).length ≠ 1 then Function.update s.ready p ((s.ready p).erase t ++ [t])
      else s.ready) = Function.update s.ready p ((s.ready p).erase t ++ [t]) := by
  split
  next => rfl
  next hlen =>
    obtain ⟨a, ha⟩ := List.length_eq_one_iff.mp (not_not.mp hlen)
    rw [ha, List.mem_singleton] at hmem
    rw [← hmem] at ha
    rw [ha, List.erase_cons_head, List.nil_append, ← ha, Function.update_eq_self]

theorem Queues.yield (h : Queues s) (ht : s.IsReady t) :
    Queues { s with
      ready :=
        if (s.ready (s.threads t).readyChain).length ≠ 1 then
          Function.update s.ready (s.threads t).readyChain
            ((s.ready (s.threads t).readyChain).erase t ++ [t])
        else s.ready
      clock := s.clock + 1
      since := Function.update s.since t (s.clock + 1) } := by
  have hmem : t ∈ s.ready (s.threads t).readyChain :=
    h.mem_iff.mpr ⟨ht, (h.placed t).chain.symm⟩
  -- Except for the bit map, this is taking the thread off and putting it back.
  have hq : Queues (readyQueueEnqueue (readyQueueExtract s t) t) := by
    refine (h.extract ht).enqueue ?_ ?_
    · rw [readyQueueExtract_threads]
      exact h.placed t
    · rw [State.IsReady, readyQueueExtract_threads]
      exact ht
  have hback : readyQueueEnqueue (readyQueueExtract s t) t = { s with
      ready := Function.update s.ready (s.threads t).readyChain
        ((s.ready (s.threads t).readyChain).erase t ++ [t])
      bitMap := (readyQueueExtract s t).bitMap.add (s.threads t).priorityMap
      clock := s.clock + 1
      since := Function.update s.since t (s.clock + 1) } := by
    rw [readyQueueExtract_frame, readyQueueExtract_ready hmem]
    simp only [readyQueueEnqueue, Function.update_self, Function.update_idem]
  rw [yield_ready hmem]
  rw [hback] at hq
  refine ⟨h.placed, ?_, hq.chains.mem, hq.chains.fifo, hq.chains.clock⟩
  refine h.chains.bits.congr fun p _ => ?_
  dsimp only
  rcases eq_or_ne p (s.threads t).readyChain with rfl | hne
  · rw [Function.update_self]
    exact ⟨fun _ => by simp, fun _ => List.ne_nil_of_mem hmem⟩
  · rw [Function.update_of_ne hne]

theorem Inv.yield (h : Inv s) : Inv (yield s t) := by
  unfold Scheduler.yield
  split
  next ht => exact (h.queues.yield ht).schedule (t := t) ht fun hf => by cases hf
  next => exact h

/-! ## Where a thread lands -/

/-- The operation puts the thread at the end of its chain. -/
def Op.Appends (s : State Tid) (t : Tid) : Op Tid → Prop
  | .clearState u state => u = t ∧ Readies s t state
  | .changePriority u filter prependIt =>
    u = t ∧ s.IsReady t ∧ prependIt = false ∧ (filter (s.threads t)).isSome
  | .yield u => u = t ∧ s.IsReady t
  | .setState _ _ | .dispatch => False

/-- The operation puts the thread in front of its chain. -/
def Op.Prepends (s : State Tid) (t : Tid) : Op Tid → Prop
  | .changePriority u filter prependIt =>
    u = t ∧ s.IsReady t ∧ prependIt = true ∧ (filter (s.threads t)).isSome
  | _ => False

theorem scheduleBody_frame (s : State Tid) (force : Bool) :
    (scheduleBody s force).ready = s.ready ∧ (scheduleBody s force).threads = s.threads := by
  unfold scheduleBody updateHeir
  split
  next => exact ⟨rfl, rfl⟩
  next => split <;> exact ⟨rfl, rfl⟩

theorem unblock_frame (s : State Tid) (t : Tid) : (unblock s t).threads = s.threads ∧
    (unblock s t).ready = (readyQueueEnqueue s t).ready := by
  unfold unblock updateHeir
  dsimp only
  split
  · split <;> exact ⟨rfl, rfl⟩
  · exact ⟨rfl, rfl⟩

theorem Queues.clearState_last (h : Queues s) {state : BitVec 32} (hr : Readies s t state) :
    ((clearState s t state).ready ((clearState s t state).prio t)).getLast? = some t := by
  have hp := h.placed t
  let r := s.onThread t fun c => { c with currentState := statesReady }
  have hrun : clearState s t state = unblock r t := by
    unfold clearState
    dsimp only
    rw [if_pos hr.1, if_pos hr.2, hr.2]
  have hself : r.threads t = { s.threads t with currentState := statesReady } := onThread_self _
  have hplaced : Placed (r.threads t) := by
    rw [hself]
    exact ⟨hp.priority, hp.chain, hp.map⟩
  rw [hrun, State.prio, (unblock_frame r t).1, (unblock_frame r t).2, readyQueueEnqueue_ready hplaced]
  change (if r.prio t = r.prio t then _ else _ : List Tid).getLast? = _
  rw [if_pos rfl]
  exact List.getLast?_concat

/-- The new priority has the thread at the end of its chain or in front. -/
theorem changePriority_lands {filter : ThreadControl → Option Nat} (ht : s.IsReady t)
    (hf : filter (s.threads t) = some p) (prependIt : Bool) :
    let s' := changePriority s t filter prependIt
    if prependIt then (s'.ready (s'.prio t)).head? = some t
    else (s'.ready (s'.prio t)).getLast? = some t := by
  let r := readyQueueUpdate (readyQueueExtract
    (s.onThread t fun c => { c with currentPriority := p }) t) t p
  have hstate : ((s.onThread t fun c => { c with currentPriority := p }).threads t).currentState =
      statesReady := by
    rw [onThread_self]
    exact ht
  have hrun : changePriority s t filter prependIt = scheduleBody
      (if prependIt then readyQueueEnqueueFirst r t else readyQueueEnqueue r t) false := by
    simp only [changePriority, hf]
    rw [if_pos hstate]
    rfl
  have hself : (r.threads t).readyChain = p ∧ (r.threads t).currentPriority = p := by
    simp only [r, readyQueueUpdate, onThread_self, readyQueueExtract_threads, and_self]
  have hframe := scheduleBody_frame
    (if prependIt then readyQueueEnqueueFirst r t else readyQueueEnqueue r t) false
  dsimp only
  rw [hrun, State.prio, hframe.1, hframe.2]
  cases prependIt <;> simp [readyQueueEnqueueFirst, readyQueueEnqueue, hself]

theorem Queues.yield_last (h : Queues s) (ht : s.IsReady t) :
    ((Scheduler.yield s t).ready ((Scheduler.yield s t).prio t)).getLast? = some t := by
  have hchain := (h.placed t).chain
  have hrun : Scheduler.yield s t = schedulerYield s t := if_pos ht
  have hready : (schedulerYield s t).ready = Function.update s.ready (s.threads t).readyChain
      ((s.ready (s.threads t).readyChain).erase t ++ [t]) :=
    (scheduleBody_frame _ _).1.trans (yield_ready (h.mem_iff.mpr ⟨ht, hchain.symm⟩))
  have hthreads : (schedulerYield s t).threads = s.threads := (scheduleBody_frame _ _).2
  rw [hrun, State.prio, hthreads, hready, hchain, Function.update_self]
  exact List.getLast?_concat

theorem Queues.appends (h : Queues s) {op : Op Tid} (ha : op.Appends s t) :
    ((op.run s).ready ((op.run s).prio t)).getLast? = some t := by
  cases op with
  | setState u state => exact ha.elim
  | clearState u state =>
    obtain ⟨rfl, hr⟩ := ha
    exact h.clearState_last hr
  | changePriority u filter prependIt =>
    obtain ⟨rfl, ht, rfl, hsome⟩ := ha
    obtain ⟨p, hf⟩ := Option.isSome_iff_exists.mp hsome
    exact changePriority_lands ht hf false
  | yield u =>
    obtain ⟨rfl, ht⟩ := ha
    exact h.yield_last ht
  | dispatch => exact ha.elim

theorem prepends {op : Op Tid} (hp : op.Prepends s t) :
    ((op.run s).ready ((op.run s).prio t)).head? = some t := by
  cases op with
  | changePriority u filter prependIt =>
    obtain ⟨rfl, ht, rfl, hsome⟩ := hp
    obtain ⟨p, hf⟩ := Option.isSome_iff_exists.mp hsome
    exact changePriority_lands ht hf true
  | setState | clearState | yield | dispatch => exact hp.elim

end Rtems.Scheduler
