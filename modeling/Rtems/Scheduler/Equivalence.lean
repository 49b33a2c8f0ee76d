import Rtems.Scheduler.Simple

/-!
# Two schedulers, one policy

The simple scheduler simulates the priority scheduler.  Its list is in the
order of the priorities, and among equal ones in the order of the times that
the priority scheduler keeps as a ghost.  No other list has the same threads in
this order, so the list is the chains one after the other.
-/

namespace Rtems.Scheduler

variable {Tid : Type} [DecidableEq Tid] {r : State Tid} {s : Simple Tid} {t u : Tid}

/-! ## The order of the ready threads -/

/-- A more important priority, or the same one for a longer time. -/
def State.Before (r : State Tid) (t u : Tid) : Prop :=
  r.prio t < r.prio u ∨ r.prio t = r.prio u ∧ r.since t < r.since u

/-- The ready threads of a set, in order. -/
structure InOrder (r : State Tid) (member : Tid → Prop) (l : List Tid) : Prop where
  sorted : l.Pairwise r.Before
  mem : ∀ t, t ∈ l ↔ member t ∧ r.IsReady t

section

omit [DecidableEq Tid]

theorem State.Before.irrefl (h : r.Before t t) : False := by
  rcases h with h | ⟨-, h⟩
  · exact Nat.lt_irrefl _ h
  · exact Int.lt_irrefl _ h

theorem State.Before.asymm (h : r.Before t u) (h' : r.Before u t) : False := by
  unfold State.Before at h h'
  omega

theorem State.Before.prio_le (h : r.Before t u) : r.prio t ≤ r.prio u := by
  unfold State.Before at h
  omega

theorem InOrder.nodup {member : Tid → Prop} {l : List Tid} (h : InOrder r member l) : l.Nodup :=
  h.sorted.imp fun hb e => (e ▸ hb).irrefl

theorem InOrder.unique {member : Tid → Prop} {l l' : List Tid} (h : InOrder r member l)
    (h' : InOrder r member l') : l = l' := by
  have hperm : l.Perm l' :=
    (List.perm_ext_iff_of_nodup h.nodup h'.nodup).mpr fun t => (h.mem t).trans (h'.mem t).symm
  exact hperm.eq_of_pairwise (fun a b _ _ hab hba => (hab.asymm hba).elim) h.sorted h'.sorted

/-- The order depends on the threads and the times only. -/
theorem InOrder.congr {r' : State Tid} {member : Tid → Prop} {l : List Tid}
    (h : InOrder r member l) (hthreads : r'.threads = r.threads) (hsince : r'.since = r.since) :
    InOrder r' member l := by
  refine ⟨h.sorted.imp fun hb => ?_, fun t => ?_⟩
  · unfold State.Before State.prio at *
    rw [hthreads, hsince]
    exact hb
  · unfold State.IsReady
    rw [hthreads]
    exact h.mem t

/-- The chains one after the other are in order. -/
theorem Queues.readyThreads (h : Queues r) : InOrder r (fun _ => True) r.readyThreads where
  sorted := by
    refine List.pairwise_flatMap.mpr ⟨fun p _ => ?_, ?_⟩
    · refine (h.chains.fifo p).imp_of_mem fun {a b} ha hb hlt => .inr ⟨?_, hlt⟩
      exact (h.mem_iff.mp ha).2.trans (h.mem_iff.mp hb).2.symm
    · refine List.pairwise_lt_range.imp fun {p q} hpq a ha b hb => .inl ?_
      rw [(h.mem_iff.mp ha).2, (h.mem_iff.mp hb).2]
      exact hpq
  mem t := by
    rw [State.readyThreads, List.mem_flatMap]
    constructor
    · rintro ⟨p, -, ht⟩
      exact ⟨trivial, (h.mem_iff.mp ht).1⟩
    · rintro ⟨-, ht⟩
      exact ⟨r.prio t, List.mem_range.mpr (h.placed t).priority, h.mem_iff.mpr ⟨ht, rfl⟩⟩

/-- The first thread of the list is the one the bit map selects. -/
theorem Queues.readyQueueFirst (h : Queues r) {l : List Tid} (hl : InOrder r (fun _ => True) l) :
    readyQueueFirst r = l.head? := by
  cases l with
  | nil =>
    rw [List.head?_nil, Scheduler.readyQueueFirst, List.head?_eq_none_iff]
    refine List.eq_nil_iff_forall_not_mem.mpr fun t ht => ?_
    exact absurd ((hl.mem t).mpr ⟨trivial, (h.mem_iff.mp ht).1⟩) List.not_mem_nil
  | cons t l =>
    have ht : r.IsReady t := ((hl.mem t).mp List.mem_cons_self).2
    obtain ⟨u, hu, hready, hfirst⟩ := h.exists_first ht
    rw [hu, List.head?_cons]
    rcases List.mem_cons.mp ((hl.mem u).mpr ⟨trivial, hready⟩) with rfl | hmem
    · rfl
    · -- A thread before `u` would be on a chain before it, or before it on its own chain.
      exfalso
      have hb : r.Before t u := (List.pairwise_cons.mp hl.sorted).1 u hmem
      have hmt : t ∈ r.ready (r.prio t) := h.mem_iff.mpr ⟨ht, rfl⟩
      rcases hb with hlt | ⟨heq, hlt⟩
      · rw [hfirst.2 _ hlt] at hmt
        exact absurd hmt List.not_mem_nil
      · obtain ⟨rest, hrest⟩ := List.head?_eq_some_iff.mp hfirst.1
        have hfifo := h.chains.fifo (r.prio u)
        rw [heq, hrest] at hmt
        rw [hrest] at hfifo
        rcases List.mem_cons.mp hmt with rfl | hmt
        · exact Int.lt_irrefl _ hlt
        · have := (List.pairwise_cons.mp hfifo).1 t hmt
          omega

/-! ## The relation -/

/-- The schedulers see the same threads and have selected the same ones. -/
structure SameView (r : State Tid) (s : Simple Tid) : Prop where
  threads : ∀ t, s.threads t = (r.threads t).simple
  heir : s.heir = r.heir
  executing : s.executing = r.executing
  dispatchNecessary : s.dispatchNecessary = r.dispatchNecessary

/-- The states are related. -/
structure Linked (r : State Tid) (s : Simple Tid) : Prop where
  queues : Queues r
  view : SameView r s
  ready : InOrder r (fun _ => True) s.ready

/-- The states are related while `t` is on neither ready queue. -/
structure Loose (t : Tid) (r : State Tid) (s : Simple Tid) : Prop where
  queues : Detached t r
  view : SameView r s
  ready : InOrder r (· ≠ t) s.ready

theorem SameView.prio (h : SameView r s) (t : Tid) : s.prio t = r.prio t := by
  rw [Simple.prio, h.threads]
  rfl

theorem SameView.isPreemptible (h : SameView r s) (t : Tid) :
    (s.threads t).isPreemptible = (r.threads t).isPreemptible := by
  rw [h.threads]
  rfl

theorem SameView.currentState (h : SameView r s) (t : Tid) :
    (s.threads t).currentState = (r.threads t).currentState := by
  rw [h.threads]
  rfl

end

theorem simple_onThread_self (g : SimpleThread → SimpleThread) :
    (s.onThread t g).threads t = g (s.threads t) := Function.update_self ..

theorem simple_onThread_other (g : SimpleThread → SimpleThread) (h : u ≠ t) :
    (s.onThread t g).threads u = s.threads u := Function.update_of_ne h ..

theorem SameView.onThread (h : SameView r s) {f : ThreadControl → ThreadControl}
    {g : SimpleThread → SimpleThread} (hfg : ∀ c : ThreadControl, (f c).simple = g c.simple) :
    SameView (r.onThread t f) (s.onThread t g) where
  threads u := by
    rcases eq_or_ne u t with rfl | hne
    · rw [onThread_self, simple_onThread_self, h.threads, hfg]
    · rw [onThread_other f hne, simple_onThread_other g hne, h.threads]
  heir := h.heir
  executing := h.executing
  dispatchNecessary := h.dispatchNecessary

section

omit [DecidableEq Tid]

theorem Linked.agree (h : Linked r s) : Agree r s where
  heir := h.view.heir.symm
  ready := h.queues.readyThreads.unique h.ready

/-! ## Extracting and inserting a thread -/

theorem Linked.detach (h : Linked r s) (ht : ¬ r.IsReady t) : Loose t r s where
  queues := h.queues.detach ht
  view := h.view
  ready :=
    { sorted := h.ready.sorted
      mem := fun u => by
        rw [h.ready.mem]
        refine ⟨fun hu => ⟨?_, hu.2⟩, fun hu => ⟨trivial, hu.2⟩⟩
        rintro rfl
        exact ht hu.2 }

end

theorem Linked.extract (h : Linked r s) (ht : r.IsReady t) :
    Loose t (readyQueueExtract r t) (s.extract t) where
  queues := h.queues.extract ht
  view := by
    rw [readyQueueExtract_frame]
    exact ⟨h.view.threads, h.view.heir, h.view.executing, h.view.dispatchNecessary⟩
  ready := by
    refine InOrder.congr ?_ readyQueueExtract_threads readyQueueExtract_since
    refine ⟨h.ready.sorted.sublist List.erase_sublist, fun u => ?_⟩
    change u ∈ s.ready.erase t ↔ _
    rw [h.ready.nodup.mem_erase_iff, h.ready.mem, true_and]

theorem Loose.onThread (h : Loose t r s) {f : ThreadControl → ThreadControl}
    {g : SimpleThread → SimpleThread} (hfg : ∀ c : ThreadControl, (f c).simple = g c.simple) :
    Loose t (r.onThread t f) (s.onThread t g) where
  queues := h.queues.onThread f
  view := h.view.onThread hfg
  ready :=
    { sorted := by
        refine h.ready.sorted.imp_of_mem fun {a b} ha hb hab => ?_
        unfold State.Before State.prio at hab ⊢
        rw [onThread_other f ((h.ready.mem a).mp ha).1, onThread_other f ((h.ready.mem b).mp hb).1]
        exact hab
      mem := fun u => by
        change u ∈ s.ready ↔ _
        rw [h.ready.mem]
        refine and_congr_right fun hu => ?_
        rw [State.IsReady, State.IsReady, onThread_other f hu] }

section

omit [DecidableEq Tid]

theorem Loose.leave (h : Loose t r s) (hp : Placed (r.threads t)) (ht : ¬ r.IsReady t) :
    Linked r s where
  queues := h.queues.leave hp ht
  view := h.view
  ready :=
    { sorted := h.ready.sorted
      mem := fun u => by
        rw [h.ready.mem]
        refine ⟨fun hu => ⟨trivial, hu.2⟩, fun hu => ⟨?_, hu.2⟩⟩
        rintro rfl
        exact ht hu.2 }

/-- Putting a ready thread back, where the new time tells its place. -/
theorem Loose.insert (h : Loose t r s) (ht : r.IsReady t) {o : Tid → Tid → Prop}
    [DecidableRel o] {r' : State Tid} (hthreads : r'.threads = r.threads)
    (hother : ∀ u ≠ t, r'.since u = r.since u)
    (hup : ∀ u ≠ t, r.IsReady u → o t u → r'.Before t u)
    (hdown : ∀ u ≠ t, r.IsReady u → ¬ o t u → r'.Before u t)
    (hmono : ∀ u v, o t u → r.prio u ≤ r.prio v → o t v) :
    InOrder r' (fun _ => True) (s.ready.orderedInsert o t) where
  sorted := by
    have hmem : ∀ u ∈ s.ready, u ≠ t ∧ r.IsReady u := fun u hu => (h.ready.mem u).mp hu
    have hprio : ∀ u, r'.prio u = r.prio u := fun u => by
      rw [State.prio, hthreads]
      rfl
    refine Lib.pairwise_orderedInsert ?_ (fun u hu => hup u (hmem u hu).1 (hmem u hu).2) ?_
      fun u hu => hdown u (hmem u hu).1 (hmem u hu).2
    · refine h.ready.sorted.imp_of_mem fun {a b} ha hb hab => ?_
      unfold State.Before at hab ⊢
      rw [hprio, hprio, hother a (hmem a ha).1, hother b (hmem b hb).1]
      exact hab
    · intro u v hv hu hb
      refine hup v (hmem v hv).1 (hmem v hv).2 (hmono u v hu ?_)
      rw [← hprio u, ← hprio v]
      exact hb.prio_le
  mem u := by
    rw [List.mem_orderedInsert, h.ready.mem, State.IsReady, State.IsReady, hthreads]
    constructor
    · rintro (rfl | hu)
      · exact ⟨trivial, ht⟩
      · exact ⟨trivial, hu.2⟩
    · rintro ⟨-, hu⟩
      rcases eq_or_ne u t with rfl | hne
      · exact .inl rfl
      · exact .inr ⟨hne, hu⟩

end

/-- Behind the threads of its priority. -/
theorem Loose.insertFifo (h : Loose t r s) (ht : r.IsReady t) :
    InOrder (readyQueueEnqueue r t) (fun _ => True) (s.insertPriorityFifo t).ready := by
  have hclock := h.queues.chains.clock
  have hself : (readyQueueEnqueue r t).since t = r.clock + 1 := Function.update_self ..
  have hother : ∀ u ≠ t, (readyQueueEnqueue r t).since u = r.since u :=
    fun u hu => Function.update_of_ne hu ..
  refine h.insert (o := fun a b => s.prio a < s.prio b) ht rfl hother ?_ ?_ ?_
  · intro u _ _ hlt
    rw [h.view.prio, h.view.prio] at hlt
    exact .inl hlt
  · intro u hu _ hge
    rw [h.view.prio, h.view.prio, Nat.not_lt] at hge
    rcases Nat.lt_or_eq_of_le hge with hlt | heq
    · exact .inl hlt
    · refine .inr ⟨heq, ?_⟩
      rw [hself, hother u hu]
      have := hclock u
      omega
  · intro u v hlt hle
    rw [h.view.prio, h.view.prio] at hlt ⊢
    exact Nat.lt_of_lt_of_le hlt hle

/-- In front of the threads of its priority. -/
theorem Loose.insertLifo (h : Loose t r s) (ht : r.IsReady t) :
    InOrder (readyQueueEnqueueFirst r t) (fun _ => True) (s.insertPriorityLifo t).ready := by
  have hclock := h.queues.chains.clock
  have hself : (readyQueueEnqueueFirst r t).since t = -(r.clock + 1) := Function.update_self ..
  have hother : ∀ u ≠ t, (readyQueueEnqueueFirst r t).since u = r.since u :=
    fun u hu => Function.update_of_ne hu ..
  refine h.insert (o := fun a b => s.prio a ≤ s.prio b) ht rfl hother ?_ ?_ ?_
  · intro u hu _ hle
    rw [h.view.prio, h.view.prio] at hle
    rcases Nat.lt_or_eq_of_le hle with hlt | heq
    · exact .inl hlt
    · refine .inr ⟨heq, ?_⟩
      rw [hself, hother u hu]
      have := hclock u
      omega
  · intro u _ _ hgt
    rw [h.view.prio, h.view.prio, Nat.not_le] at hgt
    exact .inl hgt
  · intro u v hle hle'
    rw [h.view.prio, h.view.prio] at hle ⊢
    exact Nat.le_trans hle hle'

theorem Loose.enqueue (h : Loose t r s) (hp : Placed (r.threads t)) (ht : r.IsReady t) :
    Linked (readyQueueEnqueue r t) (s.insertPriorityFifo t) where
  queues := h.queues.enqueue hp ht
  view := ⟨h.view.threads, h.view.heir, h.view.executing, h.view.dispatchNecessary⟩
  ready := h.insertFifo ht

theorem Loose.enqueueFirst (h : Loose t r s) (hp : Placed (r.threads t)) (ht : r.IsReady t) :
    Linked (readyQueueEnqueueFirst r t) (s.insertPriorityLifo t) where
  queues := h.queues.enqueueFirst hp ht
  view := ⟨h.view.threads, h.view.heir, h.view.executing, h.view.dispatchNecessary⟩
  ready := h.insertLifo ht

/-! ## The heir -/

theorem Linked.updateHeir (h : Linked r s) (u : Tid) (force : Bool) :
    Linked (updateHeir r u force) (s.updateHeir u force) where
  queues := h.queues.updateHeir u force
  view := by
    unfold Scheduler.updateHeir Simple.updateHeir
    rw [h.view.heir, h.view.isPreemptible]
    split
    next => exact ⟨h.view.threads, rfl, h.view.executing, rfl⟩
    next => exact h.view
  ready := by
    unfold Scheduler.updateHeir Simple.updateHeir
    rw [h.view.heir, h.view.isPreemptible]
    split
    next => exact h.ready.congr rfl rfl
    next => exact h.ready

theorem Linked.scheduleBody (h : Linked r s) (force : Bool) :
    Linked (scheduleBody r force) (s.scheduleBody force) := by
  unfold Scheduler.scheduleBody Simple.scheduleBody
  rw [h.queues.readyQueueFirst h.ready]
  cases hl : s.ready with
  | nil => exact h
  | cons u l => exact h.updateHeir u force

/-! ## The operations -/

theorem Linked.block (h : Linked r s) (ht : r.IsReady t) {f : ThreadControl → ThreadControl}
    {g : SimpleThread → SimpleThread} (hfg : ∀ c : ThreadControl, (f c).simple = g c.simple)
    (hc : ∀ c, (f c).readyChain = c.readyChain) (hm : ∀ c, (f c).priorityMap = c.priorityMap)
    (hp : Placed (f (r.threads t))) (hf : (f (r.threads t)).currentState ≠ statesReady) :
    Linked (block (r.onThread t f) t) ((s.onThread t g).block t) := by
  have hl : Linked ((readyQueueExtract r t).onThread t f) ((s.extract t).onThread t g) := by
    refine ((h.extract ht).onThread hfg).leave ?_ ?_
    · rw [onThread_self, readyQueueExtract_threads]
      exact hp
    · rw [State.IsReady, onThread_self, readyQueueExtract_threads]
      exact hf
  unfold Scheduler.block Simple.block
  rw [readyQueueExtract_onThread hc hm]
  change Linked _ (if s.executing = t ∨ s.heir = t then
    Simple.scheduleBody ((s.extract t).onThread t g) true else (s.extract t).onThread t g)
  dsimp only
  have hexec := hl.view.executing
  have hheir := hl.view.heir
  change s.executing = _ at hexec
  change s.heir = _ at hheir
  rw [hexec, hheir]
  split
  next => exact hl.scheduleBody true
  next => exact hl

theorem Linked.setState (h : Linked r s) {state : BitVec 32} (hs : state ≠ 0#32) :
    Linked (setState r t state) (s.setState t state) := by
  have hp := h.queues.placed t
  have hne := statesSet_ne_ready (r.threads t).currentState hs
  unfold Scheduler.setState Simple.setState
  rw [h.view.currentState]
  dsimp only
  split
  next ht =>
    exact h.block ht (fun _ => rfl) (fun _ => rfl) (fun _ => rfl)
      ⟨hp.priority, hp.chain, hp.map⟩ hne
  next ht =>
    refine ((h.detach ht).onThread fun _ => rfl).leave ?_ ?_
    · rw [onThread_self]
      exact ⟨hp.priority, hp.chain, hp.map⟩
    · rw [State.IsReady, onThread_self]
      exact hne

theorem Loose.unblock (h : Loose t r s) (hp : Placed (r.threads t)) (ht : r.IsReady t) :
    Linked (unblock r t) (s.unblock t) := by
  have hl := h.enqueue hp ht
  unfold Scheduler.unblock Simple.unblock
  dsimp only
  rw [hl.view.prio, hl.view.prio, hl.view.heir]
  split
  next => exact hl.updateHeir t _
  next => exact hl

theorem Linked.clearState (h : Linked r s) (state : BitVec 32) :
    Linked (clearState r t state) (s.clearState t state) := by
  have hp := h.queues.placed t
  unfold Scheduler.clearState Simple.clearState
  rw [h.view.currentState]
  dsimp only
  split
  next hand =>
    -- A thread with a state to clear is not ready.
    have ht : ¬ r.IsReady t := fun e => hand (by rw [e]; exact BitVec.zero_and)
    have hl := (h.detach ht).onThread
      (f := fun c => { c with currentState := statesClear state (r.threads t).currentState })
      (g := fun c => { c with currentState := statesClear state (r.threads t).currentState })
      fun _ => rfl
    have hpl : Placed ((r.onThread t fun c =>
        { c with currentState := statesClear state (r.threads t).currentState }).threads t) := by
      rw [onThread_self]
      exact ⟨hp.priority, hp.chain, hp.map⟩
    split
    next hready =>
      refine hl.unblock hpl ?_
      rw [State.IsReady, onThread_self]
      exact hready
    next hready =>
      refine hl.leave hpl ?_
      rw [State.IsReady, onThread_self]
      exact hready
  next => exact h

/-- A thread with a new priority, in its state and in its node. -/
def ThreadControl.moved (p : Nat) (c : ThreadControl) : ThreadControl :=
  { c with currentPriority := p, readyChain := p, priorityMap := BitMap.information p }

theorem readyQueueUpdate_onThread (r : State Tid) (t : Tid) (p : Nat) :
    readyQueueUpdate (r.onThread t fun c => { c with currentPriority := p }) t p =
      r.onThread t (ThreadControl.moved p) := by
  rw [readyQueueUpdate]
  simp only [State.onThread, Function.update_self, Function.update_idem]
  rfl

theorem Loose.moved (h : Loose t r s) (p : Nat) :
    Loose t (r.onThread t (ThreadControl.moved p))
      (s.onThread t fun c => { c with currentPriority := p }) :=
  h.onThread fun _ => rfl

theorem Placed.moved {p : Nat} (hp : p < 256) :
    Placed ((r.onThread t (ThreadControl.moved p)).threads t) := by
  rw [onThread_self]
  exact ⟨hp, rfl, rfl⟩

theorem isReady_moved {p : Nat} :
    (r.onThread t (ThreadControl.moved p)).IsReady t ↔ r.IsReady t := by
  rw [State.IsReady, onThread_self]
  exact Iff.rfl

theorem Linked.schedulerChangePriority (h : Linked r s) (ht : r.IsReady t) {p : Nat}
    (hp : p < 256) (prependIt : Bool) :
    Linked (schedulerChangePriority (r.onThread t fun c => { c with currentPriority := p }) t p
        prependIt)
      ((s.onThread t fun c => { c with currentPriority := p }).schedulerChangePriority t
        prependIt) := by
  have hloose := (h.extract ht).moved p
  have hready : ((readyQueueExtract r t).onThread t (ThreadControl.moved p)).IsReady t := by
    rw [isReady_moved, State.IsReady, readyQueueExtract_threads]
    exact ht
  unfold Scheduler.schedulerChangePriority Simple.schedulerChangePriority
  rw [readyQueueExtract_onThread (f := fun c => { c with currentPriority := p })
    (fun _ => rfl) (fun _ => rfl)]
  dsimp only
  rw [readyQueueUpdate_onThread]
  cases prependIt with
  | true => exact (hloose.enqueueFirst (.moved hp) hready).scheduleBody false
  | false => exact (hloose.enqueue (.moved hp) hready).scheduleBody false

theorem Linked.changePriority (h : Linked r s) {filter : SimpleThread → Option Nat}
    (hf : ∀ c p, filter c = some p → p < 256) (prependIt : Bool) :
    Linked (changePriority r t (fun c => filter c.simple) prependIt)
      (s.changePriority t filter prependIt) := by
  unfold Scheduler.changePriority Simple.changePriority
  rw [h.view.threads]
  dsimp only
  cases hp : filter (r.threads t).simple with
  | none => exact h
  | some p =>
    dsimp only
    rw [onThread_self, simple_onThread_self, h.view.threads]
    change Linked (if (r.threads t).currentState = statesReady then _ else _)
      (if (r.threads t).currentState = statesReady then _ else _)
    split
    next ht => exact h.schedulerChangePriority ht (hf _ _ hp) prependIt
    next ht =>
      rw [readyQueueUpdate_onThread]
      exact ((h.detach ht).moved p).leave (.moved (hf _ _ hp)) (isReady_moved.not.mpr ht)

section

omit [DecidableEq Tid]

theorem Linked.dispatch (h : Linked r s) : Linked (dispatch r) s.dispatch where
  queues := ⟨h.queues.placed, h.queues.chains.bits, h.queues.chains.mem, h.queues.chains.fifo,
    h.queues.chains.clock⟩
  view := ⟨h.view.threads, h.view.heir, h.view.heir, rfl⟩
  ready := h.ready.congr rfl rfl

end

/-! ## Yield -/

/-- The ready chains once `t` is behind the threads of its priority. -/
def State.yielded (r : State Tid) (t : Tid) : State Tid :=
  { r with
    ready :=
      if (r.ready (r.threads t).readyChain).length ≠ 1 then
        Function.update r.ready (r.threads t).readyChain
          ((r.ready (r.threads t).readyChain).erase t ++ [t])
      else r.ready
    clock := r.clock + 1
    since := Function.update r.since t (r.clock + 1) }

theorem Linked.yielded (h : Linked r s) (ht : r.IsReady t) :
    Linked (r.yielded t) ((s.extract t).insertPriorityFifo t) where
  queues := h.queues.yield ht
  view := ⟨h.view.threads, h.view.heir, h.view.executing, h.view.dispatchNecessary⟩
  ready := by
    have hready : (readyQueueExtract r t).IsReady t := by
      rw [State.IsReady, readyQueueExtract_threads]
      exact ht
    refine ((h.extract ht).insertFifo hready).congr ?_ ?_
    · exact (readyQueueExtract_threads (s := r) (t := t)).symm
    · unfold readyQueueEnqueue
      dsimp only
      rw [readyQueueExtract_since, readyQueueExtract_clock]
      rfl

theorem Queues.yielded_ready (h : Queues r) (ht : r.IsReady t) (p : Nat) :
    (r.yielded t).ready p =
      if p = r.prio t then (r.ready (r.prio t)).erase t ++ [t] else r.ready p := by
  have hchain : (r.threads t).readyChain = r.prio t := (h.placed t).chain
  have hmem : t ∈ r.ready (r.prio t) := h.mem_iff.mpr ⟨ht, rfl⟩
  unfold State.yielded
  dsimp only
  rw [hchain]
  split
  next =>
    rcases eq_or_ne p (r.prio t) with rfl | hne
    · rw [Function.update_self, if_pos rfl]
    · rw [Function.update_of_ne hne, if_neg hne]
  next hlen =>
    obtain ⟨a, ha⟩ := List.length_eq_one_iff.mp (not_not.mp hlen)
    rcases eq_or_ne p (r.prio t) with rfl | hne
    · rw [if_pos rfl]
      rw [ha, List.mem_singleton] at hmem
      rw [ha, ← hmem, List.erase_cons_head, List.nil_append]
    · rw [if_neg hne]

/-- The first thread after the yield. -/
theorem Queues.comesFirst_iff (h : Queues r) (ht : r.IsReady t) :
    ComesFirst r t u ↔ First (r.yielded t) u := by
  unfold ComesFirst First
  rw [h.yielded_ready ht, show (r.yielded t).prio u = r.prio u from rfl]
  refine and_congr ?_ (forall₂_congr fun p hp => ?_)
  · split <;> rfl
  · rw [h.yielded_ready ht]
    split
    next he =>
      have hmem : t ∈ r.ready p := h.mem_iff.mpr ⟨ht, he.symm⟩
      constructor
      · intro hnil
        rw [hnil] at hmem
        exact absurd hmem List.not_mem_nil
      · intro hnil
        exact absurd hnil (by simp)
    next => rfl

section

omit [DecidableEq Tid]

theorem First.unique {v : Tid} (h : First r u) (h' : First r v) : u = v := by
  have hne : ∀ {a b : Tid}, First r a → First r b → ¬ r.prio a < r.prio b := by
    intro a b ha hb hlt
    have := ha.1
    rw [hb.2 _ hlt] at this
    cases this
  have heq : r.prio u = r.prio v := by
    have h1 := hne h h'
    have h2 := hne h' h
    omega
  have := h.1
  rw [heq, h'.1] at this
  exact (Option.some.inj this).symm

end

/-- The condition under which a yield needs no force. -/
def NoForce (r : State Tid) (t : Tid) : Prop :=
  (r.threads r.heir).isPreemptible = true ∨ ComesFirst r t r.heir

/-- Both schedulers yield to the same thread iff there is no need for force. -/
theorem Linked.schedulerYield (h : Linked r s) (ht : r.IsReady t) :
    (NoForce r t → Linked (Scheduler.schedulerYield r t) (s.schedulerYield t)) ∧
      (¬ NoForce r t → (Scheduler.schedulerYield r t).heir ≠ (s.schedulerYield t).heir) := by
  have hl := h.yielded ht
  obtain ⟨u, hu, -, hfirst⟩ := hl.queues.exists_first (t := t) ht
  obtain ⟨l, hlist⟩ : ∃ l, ((s.extract t).insertPriorityFifo t).ready = u :: l := by
    rw [hl.queues.readyQueueFirst hl.ready] at hu
    exact List.head?_eq_some_iff.mp hu
  have hpriority : Scheduler.schedulerYield r t = Scheduler.updateHeir (r.yielded t) u true := by
    change Scheduler.scheduleBody (r.yielded t) true = _
    unfold Scheduler.scheduleBody
    rw [hu]
  have hsimple : s.schedulerYield t =
      ((s.extract t).insertPriorityFifo t).updateHeir u false := by
    unfold Simple.schedulerYield Simple.scheduleBody
    rw [hlist]
  have hiff : ComesFirst r t r.heir ↔ r.heir = u := by
    rw [h.queues.comesFirst_iff ht]
    exact ⟨fun hf => hf.unique hfirst, fun he => he ▸ hfirst⟩
  rw [NoForce, hiff, hpriority, hsimple]
  constructor
  · intro hcase
    have hforce : Scheduler.updateHeir (r.yielded t) u true =
        Scheduler.updateHeir (r.yielded t) u false := by
      unfold Scheduler.updateHeir
      rw [show (r.yielded t).heir = r.heir from rfl,
        show (r.yielded t).threads = r.threads from rfl]
      rcases hcase with hpre | heq
      · rw [hpre]
        rfl
      · rw [if_neg fun hc => hc.1 heq, if_neg fun hc => hc.1 heq]
    rw [hforce]
    exact hl.updateHeir u false
  · intro hcase
    rw [not_or, Bool.not_eq_true] at hcase
    have hheir : ((s.extract t).insertPriorityFifo t).heir = r.heir := h.view.heir
    unfold Scheduler.updateHeir Simple.updateHeir
    rw [hl.view.isPreemptible, hheir, show (r.yielded t).heir = r.heir from rfl,
      show (r.yielded t).threads = r.threads from rfl, hcase.1]
    rw [if_pos ⟨hcase.2, rfl⟩, if_neg fun hc => Bool.false_ne_true hc.2, hheir]
    exact Ne.symm hcase.2

theorem Linked.yield (h : Linked r s) (t : Tid) :
    ((r.IsReady t → NoForce r t) → Linked (yield r t) (s.yield t)) ∧
      (¬ (r.IsReady t → NoForce r t) → (yield r t).heir ≠ (s.yield t).heir) := by
  unfold Scheduler.yield Simple.yield
  rw [h.view.currentState]
  split
  next ht =>
    obtain ⟨hsame, hdiffer⟩ := h.schedulerYield ht
    exact ⟨fun hcase => hsame (hcase ht), fun hcase => hdiffer fun hn => hcase fun _ => hn⟩
  next ht => exact ⟨fun _ => h, fun hcase => absurd (fun hr => absurd hr ht) hcase⟩

/-! ## Runs -/

/-- One request keeps the relation, unless a yield needs force. -/
theorem Linked.step (h : Linked r s) {a : Request Tid} (he : a.op.Enabled r) :
    (YieldsInTurn r a.op → Linked (a.op.run r) (a.run s)) ∧
      (¬ YieldsInTurn r a.op → (a.op.run r).heir ≠ (a.run s).heir) := by
  cases a with
  | setState t state => exact ⟨fun _ => h.setState he.1, fun hn => absurd trivial hn⟩
  | clearState t state => exact ⟨fun _ => h.clearState state, fun hn => absurd trivial hn⟩
  | changePriority t filter prependIt =>
    refine ⟨fun _ => ?_, fun hn => absurd trivial hn⟩
    -- A filter reads what both see, so it is in range for all that both see.
    exact h.changePriority (fun c p hp => he
      { currentPriority := c.currentPriority, currentState := c.currentState,
        isPreemptible := c.isPreemptible, readyChain := 0,
        priorityMap := BitMap.information 0 } p hp) prependIt
  | yield t => exact h.yield t
  | dispatch => exact ⟨fun _ => h.dispatch, fun hn => absurd trivial hn⟩

theorem Linked.start {priority : Tid → Nat} (hp : ∀ t, priority t < 256)
    (isPreemptible : Tid → Bool) (idle : Tid) :
    Linked (start priority isPreemptible idle) (Simple.start priority isPreemptible idle) := by
  have hinit : Linked (schedulerInitialize priority isPreemptible idle)
      (Simple.schedulerInitialize priority isPreemptible idle) := by
    refine ⟨Queues.schedulerInitialize hp isPreemptible idle,
      ⟨fun _ => rfl, rfl, rfl, rfl⟩, List.Pairwise.nil, fun t => ?_⟩
    refine ⟨fun ht => absurd ht List.not_mem_nil, fun ht => ?_⟩
    exact absurd ht.2 (by change statesDormant ≠ statesReady; decide)
  exact hinit.clearState statesDormant

theorem AgreeAlong.agree {as : List (Request Tid)} (h : AgreeAlong r s as) : Agree r s := by
  cases h with
  | nil h => exact h
  | cons h _ => exact h

/-- The schedulers agree along a run iff its yields are in turn. -/
theorem Linked.agreeAlong_iff {as : List (Request Tid)} {r' : State Tid} (h : Linked r s)
    (hrun : Runs (fun _ _ => True) r (as.map Request.op) r') :
    AgreeAlong r s as ↔ Runs YieldsInTurn r (as.map Request.op) r' := by
  induction as generalizing r s with
  | nil =>
    cases hrun with
    | nil => exact ⟨fun _ => .nil, fun _ => .nil h.agree⟩
  | cons a as ih =>
    cases hrun with
    | cons he _ hrest =>
      obtain ⟨hsame, hdiffer⟩ := h.step he
      constructor
      · intro hagree
        cases hagree with
        | cons _ hnext =>
          have hturn : YieldsInTurn r a.op := by
            by_contra hn
            exact hdiffer hn hnext.agree.heir
          exact .cons he hturn ((ih (hsame hturn) hrest).mp hnext)
      · intro hturns
        cases hturns with
        | cons _ hturn hturns => exact .cons h.agree ((ih (hsame hturn) hrest).mpr hturns)

/-- **The simple scheduler agrees with the priority scheduler** along a run
exactly if no yield needs force. -/
theorem simple_agrees {priority : Tid → Nat} (hp : ∀ t, priority t < 256)
    {isPreemptible : Tid → Bool} {idle : Tid} {as : List (Request Tid)}
    (hrun : Runs (fun _ _ => True) (start priority isPreemptible idle) (as.map Request.op) r) :
    AgreeAlong (start priority isPreemptible idle) (Simple.start priority isPreemptible idle) as ↔
      Runs YieldsInTurn (start priority isPreemptible idle) (as.map Request.op) r :=
  (Linked.start hp isPreemptible idle).agreeAlong_iff hrun

/-- The idle thread and two threads of the same priority. -/
def twoPriorities (t : Nat) : Nat := if t = 0 then 255 else 10

theorem twoPriorities_lt (t : Nat) : twoPriorities t < 256 := by
  unfold twoPriorities
  split <;> decide

/-- Two threads that take turns. -/
theorem simple_agrees_turns :
    let as : List (Request Nat) :=
      [.clearState 1 statesDormant, .clearState 2 statesDormant, .dispatch, .yield 1]
    let s₀ := Simple.start twoPriorities (fun _ => true) 0
    (as.foldl Request.run s₀).ready = [2, 1, 0] ∧
      AgreeAlong (start twoPriorities (fun _ => true) 0) s₀ as := by
  intro as s₀
  have hrun : Runs (fun _ _ => True) (start twoPriorities (fun _ => true) 0)
      (as.map Request.op) _ :=
    .cons statesDormant_ne_zero trivial <| .cons statesDormant_ne_zero trivial <|
      .cons trivial trivial <| .cons trivial trivial .nil
  have hturns : Runs YieldsInTurn (start twoPriorities (fun _ => true) 0)
      (as.map Request.op) _ :=
    .cons statesDormant_ne_zero trivial <| .cons statesDormant_ne_zero trivial <|
      .cons trivial trivial <| .cons trivial (fun _ => .inl (by decide)) .nil
  exact ⟨by decide, (simple_agrees twoPriorities_lt hrun).mpr hturns⟩

/-- Thread 1 is not preemptible and yields to thread 2.  The simple scheduler
keeps it as the heir. -/
theorem simple_agrees_unforced : ¬ ∀ (priority : Nat → Nat) (isPreemptible : Nat → Bool)
    (idle : Nat) (as : List (Request Nat)) (r : State Nat), (∀ t, priority t < 256) →
      Runs (fun _ _ => True) (start priority isPreemptible idle) (as.map Request.op) r →
        AgreeAlong (start priority isPreemptible idle)
          (Simple.start priority isPreemptible idle) as := by
  intro hall
  have hagree : AgreeAlong (start twoPriorities (fun t => t != 1) 0)
      (Simple.start twoPriorities (fun t => t != 1) 0)
      [.clearState 1 statesDormant, .clearState 2 statesDormant, .dispatch, .yield 1] :=
    hall _ _ _ _ _ twoPriorities_lt
      (.cons statesDormant_ne_zero trivial <| .cons statesDormant_ne_zero trivial <|
        .cons trivial trivial <| .cons trivial trivial .nil)
  cases hagree with
  | cons _ h => cases h with
    | cons _ h => cases h with
      | cons _ h => cases h with
        | cons _ h => exact absurd h.agree.heir (by decide)

end Rtems.Scheduler
