import Rtems.ThreadQueue.Model

/-!
# The blocking protocol

`Inv` relates, for every thread, the queue, the wait flags, the thread state,
the timer and the interrupt code still to run.  Its accounting clause is
`Inv.count`: the times a thread became ready, the unblocks still on the stack
and the one the enqueuer itself owes add up to the times the thread was taken
off the queue.

Every waker does the same thing to the thread it wakes (`Woke`), so one lemma
(`Inv.woke`) covers extract, dequeue, flush and timeout.
-/

namespace Rtems.ThreadQueue

variable {Tid : Type} [DecidableEq Tid]

/-- A state a thread blocks in: some blocking bit is set, and no other bit. -/
def Blocking (st : BitVec 32) : Prop := st ≠ 0#32 ∧ statesClear statesBlocked st = statesReady

instance (st : BitVec 32) : Decidable (Blocking st) := inferInstanceAs (Decidable (_ ∧ _))

/-- The return code a waker leaves. -/
def Waker.code (cfg : Config Tid) (init : Nat) : Waker → Nat
  | .extracted => init
  | .flushed status => status
  | .timedOut => cfg.timeoutCode

/-- The enqueuer is past its first critical section and not finished. -/
def Pc.Mid (pc : Pc) : Prop := pc ≠ .start ∧ pc ≠ .done

instance (pc : Pc) : Decidable pc.Mid := inferInstanceAs (Decidable (_ ∧ _))

/-- The unblock that the enqueuer owes itself: it was woken before it had
blocked. -/
def owed (cfg : Config Tid) (s : State Tid) (t : Tid) : Nat :=
  if t = cfg.enqueuer ∧ s.pc.Mid ∧ (s.threads t).onQueue = false then 1 else 0

/-- The start of the call: the enqueuer is ready, waits nowhere and has no
timer running, and every thread of the queue has blocked. -/
structure Start (cfg : Config Tid) (s : State Tid) : Prop where
  pc : s.pc = .start
  pending : s.pending = []
  nodup : s.queue.Nodup
  mem : ∀ t, t ∈ s.queue ↔ (s.threads t).onQueue = true
  operations : ∀ t, (s.threads t).onQueue = true → (s.threads t).operations = cfg.operations
  flags : ∀ t, (s.threads t).onQueue = true → (s.threads t).flags = blocked
  timer : ∀ t, (s.threads t).onQueue = false → (s.threads t).timer = .inactive
  blocking : ∀ t, (s.threads t).onQueue = true → Blocking (s.threads t).currentState
  ready : (s.threads cfg.enqueuer).currentState = statesReady
  off : (s.threads cfg.enqueuer).onQueue = false
  wakes : ∀ t, s.wakes t = []
  unblocks : ∀ t, s.unblocks t = 0

/-- The arguments callers pass: the operations of an initialised queue and a
blocking state. -/
structure Config.Ok (cfg : Config Tid) : Prop where
  operations : cfg.operations ≠ .default
  state : Blocking cfg.state

/-- The invariant of the protocol. -/
structure Inv (cfg : Config Tid) (init : Nat) (s : State Tid) : Prop where
  nodup : s.queue.Nodup
  mem : ∀ t, t ∈ s.queue ↔ (s.threads t).onQueue = true
  operations : ∀ t, (s.threads t).onQueue = true → (s.threads t).operations = cfg.operations
  flagsOn : ∀ t, (s.threads t).onQueue = true → (s.threads t).flags =
    if t = cfg.enqueuer ∧ s.pc ≠ .done then intendToBlock else blocked
  flagsOff : ∀ t, (s.threads t).onQueue = false →
    (s.threads t).flags = readyAgain ∨
      ((s.threads t).timer = .inactive ∧ .timeout t ∉ s.pending)
  flagsWoken : s.pc ≠ .start → (s.threads cfg.enqueuer).onQueue = false →
    (s.threads cfg.enqueuer).flags = readyAgain
  blocking : ∀ t, (s.threads t).onQueue = true ∨ .unblock t ∈ s.pending →
    (t = cfg.enqueuer → s.pc = .done) → Blocking (s.threads t).currentState
  unblockOff : ∀ t, .unblock t ∈ s.pending → (s.threads t).onQueue = false
  unblockOnce : ∀ t, s.pending.count (.unblock t) ≤ 1
  count : ∀ t, s.unblocks t + s.pending.count (.unblock t) + owed cfg s t = (s.wakes t).length
  late : ∀ op ∈ s.pending, op = .unblock cfg.enqueuer ∨ op = .removeTimer cfg.enqueuer →
    s.pc = .done
  startOff : s.pc = .start ∨ s.pc = .unblockTimer ∨ s.pc = .unblockState →
    (s.threads cfg.enqueuer).onQueue = false
  early : s.pc = .start ∨ s.pc = .setState → (s.threads cfg.enqueuer).currentState = statesReady
  mid : s.pc.Mid → s.pc ≠ .setState → Blocking (s.threads cfg.enqueuer).currentState
  woken : s.pc = .done → (s.threads cfg.enqueuer).onQueue = false →
    .unblock cfg.enqueuer ∉ s.pending → (s.threads cfg.enqueuer).currentState = statesReady
  timerEarly : s.pc = .start ∨ s.pc = .setState ∨ s.pc = .timerInit ∨ s.pc = .unblockState →
    (s.threads cfg.enqueuer).timer = .inactive
  timerInsert : s.pc = .timerInsert → (s.threads cfg.enqueuer).timer = .beingInserted
  timerDone : s.pc = .done → (s.threads cfg.enqueuer).onQueue = false →
    .removeTimer cfg.enqueuer ∉ s.pending → (s.threads cfg.enqueuer).timer = .inactive
  timerFired : .timeout cfg.enqueuer ∈ s.pending → (s.threads cfg.enqueuer).timer = .inactive
  timeoutCode : (s.threads cfg.enqueuer).timer ≠ .inactive ∨ .timeout cfg.enqueuer ∈ s.pending →
    (s.threads cfg.enqueuer).timeoutCode = cfg.timeoutCode
  noWaker : s.pc = .start ∨ (s.threads cfg.enqueuer).onQueue = true →
    s.wakes cfg.enqueuer = [] ∧ (s.threads cfg.enqueuer).returnCode = init
  oneWaker : s.pc ≠ .start → (s.threads cfg.enqueuer).onQueue = false →
    ∃ w, s.wakes cfg.enqueuer = [w] ∧ (s.threads cfg.enqueuer).returnCode = w.code cfg init

/-! ## Facts about the flags -/

theorem blocked_ne_intend : blocked ≠ intendToBlock := by decide

theorem statesSet_ready (st : BitVec 32) : statesSet st statesReady = st := by
  simp [statesSet, statesReady]

/-- A word that is clear under a mask and under its complement is zero. -/
theorem eq_zero_of_and_mask {st m : BitVec 32} (h1 : st &&& m = 0#32) (h2 : st &&& ~~~ m = 0#32) :
    st = 0#32 := by
  ext i hi
  have e1 : (st &&& m)[i] = false := by rw [h1]; simp
  have e2 : (st &&& ~~~ m)[i] = false := by rw [h2]; simp
  simp only [BitVec.getElem_and, BitVec.getElem_not] at e1 e2
  cases h : st[i] with
  | false => simp
  | true => simp [h] at e1 e2; simp [e1] at e2

theorem Blocking.clear {st : BitVec 32} (h : Blocking st) :
    st &&& statesBlocked ≠ 0#32 ∧ statesClear statesBlocked st = statesReady :=
  ⟨fun h0 => h.1 (eq_zero_of_and_mask h0 h.2), h.2⟩

/-! ## What every waker does -/

/-- `s'` is `s` after the waker `w` took `t` off the queue.  Either the
enqueuer is told that it is ready again, or the unblock is left to this
interrupt. -/
structure Woke (cfg : Config Tid) (w : Waker) (t : Tid) (s s' : State Tid) : Prop where
  queue : s'.queue = s.queue.erase t
  pc : s'.pc = s.pc
  unblocks : s'.unblocks = s.unblocks
  wakes : s'.wakes = Function.update s.wakes t (w :: s.wakes t)
  others : ∀ u, u ≠ t → s'.threads u = s.threads u
  onQueue : (s'.threads t).onQueue = false
  flags : (s'.threads t).flags = readyAgain
  currentState : (s'.threads t).currentState = (s.threads t).currentState
  timer : (s'.threads t).timer = (s.threads t).timer
  timeoutCode : (s'.threads t).timeoutCode = (s.threads t).timeoutCode
  returnCode : t = cfg.enqueuer →
    (s'.threads t).returnCode = w.code cfg (s.threads t).returnCode
  pending : ((s.threads t).flags = intendToBlock ∧ s'.pending = s.pending) ∨
    ((s.threads t).flags ≠ intendToBlock ∧ ∃ p,
      (p = [.removeTimer t] ∨ (p = [] ∧ (t = cfg.enqueuer → (s.threads t).timer = .inactive))) ∧
      s'.pending = p ++ .unblock t :: s.pending)

section Woke

variable {cfg : Config Tid} {init : Nat} {w : Waker} {t : Tid} {s s' : State Tid}

/-- A waker adds only the two pieces of its unblock to the stack. -/
theorem Woke.mem_pending (hw : Woke cfg w t s s') {op : Isr Tid} (hop : op ∈ s'.pending) :
    op ∈ s.pending ∨
      ((s.threads t).flags ≠ intendToBlock ∧ (op = .unblock t ∨ op = .removeTimer t)) := by
  obtain ⟨_, he⟩ | ⟨hne, p, hp, he⟩ := hw.pending
  · exact .inl (he ▸ hop)
  · rw [he, List.mem_append, List.mem_cons] at hop
    obtain h1 | h1 | h1 := hop
    · obtain rfl | ⟨rfl, _⟩ := hp
      · exact .inr ⟨hne, .inr (List.mem_singleton.mp h1)⟩
      · exact absurd h1 List.not_mem_nil
    · exact .inr ⟨hne, .inl h1⟩
    · exact .inl h1

theorem Woke.pending_subset (hw : Woke cfg w t s s') {op : Isr Tid} (hop : op ∈ s.pending) :
    op ∈ s'.pending := by
  obtain ⟨_, he⟩ | ⟨_, p, _, he⟩ := hw.pending
  · exact he ▸ hop
  · rw [he]
    exact List.mem_append_right _ (List.mem_cons_of_mem _ hop)

theorem Woke.count_other (hw : Woke cfg w t s s') {u : Tid} (hu : u ≠ t) :
    s'.pending.count (.unblock u) = s.pending.count (.unblock u) := by
  obtain ⟨_, he⟩ | ⟨_, p, hp, he⟩ := hw.pending
  · rw [he]
  · obtain rfl | ⟨rfl, _⟩ := hp <;> simp [he, Ne.symm hu]

theorem Woke.timeout_mem (hw : Woke cfg w t s s') {u : Tid} (h : .timeout u ∈ s'.pending) :
    .timeout u ∈ s.pending := by
  obtain h | ⟨_, h | h⟩ := hw.mem_pending h
  · exact h
  · cases h
  · cases h

/-- A fact about a field of the enqueuer that no waker writes. -/
theorem Woke.enqueuer_eq (hw : Woke cfg w t s s') :
    (s'.threads cfg.enqueuer).currentState = (s.threads cfg.enqueuer).currentState ∧
      (s'.threads cfg.enqueuer).timer = (s.threads cfg.enqueuer).timer ∧
      (s'.threads cfg.enqueuer).timeoutCode = (s.threads cfg.enqueuer).timeoutCode := by
  by_cases h : cfg.enqueuer = t
  · rw [h]
    exact ⟨hw.currentState, hw.timer, hw.timeoutCode⟩
  · rw [hw.others _ h]
    exact ⟨rfl, rfl, rfl⟩

/-- What the flags of a queued thread say about who unblocks it. -/
theorem Inv.intend_iff (h : Inv cfg init s) (hon : (s.threads t).onQueue = true) :
    (s.threads t).flags = intendToBlock ↔ t = cfg.enqueuer ∧ s.pc.Mid := by
  rw [h.flagsOn t hon]
  constructor
  · intro he
    by_cases hc : t = cfg.enqueuer ∧ s.pc ≠ .done
    · refine ⟨hc.1, fun h0 => ?_, hc.2⟩
      have hoff := h.startOff (.inl h0)
      rw [← hc.1, hon] at hoff
      exact absurd hoff (by simp)
    · rw [if_neg hc] at he
      exact absurd he blocked_ne_intend
  · rintro ⟨he, hm⟩
    rw [if_pos ⟨he, hm.2⟩]

theorem Inv.unblock_count_zero (h : Inv cfg init s) (hon : (s.threads t).onQueue = true) :
    s.pending.count (.unblock t) = 0 := by
  refine List.count_eq_zero.mpr fun hm => ?_
  rw [h.unblockOff t hm] at hon
  exact absurd hon (by simp)

/-- The accounting of a wakeup: the unblock is owed by the enqueuer or is on
the stack, never both. -/
theorem Inv.woke_count (h : Inv cfg init s) (hon : (s.threads t).onQueue = true)
    (hw : Woke cfg w t s s') : s'.pending.count (.unblock t) + owed cfg s' t = 1 := by
  have h0 := h.unblock_count_zero hon
  obtain ⟨hi, he⟩ | ⟨hi, p, hp, he⟩ := hw.pending
  · have hE := (h.intend_iff hon).mp hi
    rw [he, h0, owed, hw.pc, if_pos ⟨hE.1, hE.2, hw.onQueue⟩]
  · have hE := mt (h.intend_iff hon).mpr hi
    have howed : owed cfg s' t = 0 := by
      rw [owed, hw.pc, if_neg fun hc => hE ⟨hc.1, hc.2.1⟩]
    obtain rfl | ⟨rfl, _⟩ := hp <;> simp [he, howed, h0]

/-- A thread that is still on the queue is another one. -/
theorem Woke.still_onQueue (hw : Woke cfg w t s s') {u : Tid} (hu : (s'.threads u).onQueue = true) :
    u ≠ t ∧ (s.threads u).onQueue = true := by
  by_cases hut : u = t
  · rw [hut, hw.onQueue] at hu
    exact absurd hu (by simp)
  · rw [hw.others u hut] at hu
    exact ⟨hut, hu⟩

theorem Inv.woke_mem (h : Inv cfg init s) (hw : Woke cfg w t s s') (u : Tid) :
    u ∈ s'.queue ↔ (s'.threads u).onQueue = true := by
  rw [hw.queue, h.nodup.mem_erase_iff, h.mem u]
  by_cases hut : u = t
  · simp [hut, hw.onQueue]
  · simp [hut, hw.others u hut]

/-- A waker that is to unblock the enqueuer itself finds the call done. -/
theorem Inv.woke_done (h : Inv cfg init s) (hon : (s.threads t).onQueue = true)
    (he : t = cfg.enqueuer) (hi : (s.threads t).flags ≠ intendToBlock) : s.pc = .done := by
  by_contra hd
  refine hi ((h.intend_iff hon).mpr ⟨he, fun h0 => ?_, hd⟩)
  rw [he, h.startOff (.inl h0)] at hon
  exact absurd hon (by simp)

/-- Once the call is done, a waker leaves its unblock on the stack. -/
theorem Inv.woke_pending (h : Inv cfg init s) (hon : (s.threads t).onQueue = true)
    (hw : Woke cfg w t s s') (hpc : s.pc = .done) :
    ∃ p, (p = [.removeTimer t] ∨ (p = [] ∧ (t = cfg.enqueuer → (s.threads t).timer = .inactive))) ∧
      s'.pending = p ++ .unblock t :: s.pending := by
  obtain ⟨hi, _⟩ | ⟨_, hp⟩ := hw.pending
  · exact absurd hpc ((h.intend_iff hon).mp hi).2.2
  · exact hp

theorem Inv.woke_blocking (h : Inv cfg init s) (hon : (s.threads t).onQueue = true)
    (hw : Woke cfg w t s s') {u : Tid} (hu : (s'.threads u).onQueue = true ∨ .unblock u ∈ s'.pending)
    (hpc : u = cfg.enqueuer → s.pc = .done) : Blocking (s'.threads u).currentState := by
  by_cases hut : u = t
  · subst hut
    rw [hw.currentState]
    exact h.blocking u (.inl hon) hpc
  · rw [hw.others u hut] at hu ⊢
    refine h.blocking u (hu.imp id fun hm => ?_) hpc
    obtain hm | ⟨_, hm | hm⟩ := hw.mem_pending hm
    · exact hm
    · exact absurd (Isr.unblock.inj hm) hut
    · cases hm

theorem Inv.woke_unblockOff (h : Inv cfg init s) (hw : Woke cfg w t s s') {u : Tid}
    (hu : .unblock u ∈ s'.pending) : (s'.threads u).onQueue = false := by
  by_cases hut : u = t
  · exact hut ▸ hw.onQueue
  · rw [hw.others u hut]
    refine h.unblockOff u (List.count_pos_iff.mp ?_)
    rw [← hw.count_other hut]
    exact List.count_pos_iff.mpr hu

/-- Every wakeup has one unblock. -/
theorem Inv.woke_unblocks (h : Inv cfg init s) (hon : (s.threads t).onQueue = true)
    (hw : Woke cfg w t s s') (u : Tid) :
    s'.unblocks u + s'.pending.count (.unblock u) + owed cfg s' u = (s'.wakes u).length := by
  have hc := h.count u
  rw [hw.unblocks, hw.wakes]
  by_cases hut : u = t
  · subst hut
    have h1 := h.woke_count hon hw
    have h0 := h.unblock_count_zero hon
    have h2 : owed cfg s u = 0 := by simp [owed, hon]
    rw [Function.update_self, List.length_cons]
    omega
  · rw [Function.update_of_ne hut, hw.count_other hut]
    have h2 : owed cfg s' u = owed cfg s u := by simp [owed, hw.pc, hw.others u hut]
    omega

/-- The enqueuer is ready once it is unblocked. -/
theorem Inv.woke_ready (h : Inv cfg init s) (hon : (s.threads t).onQueue = true)
    (hw : Woke cfg w t s s') (hpc : s.pc = .done)
    (ho : (s'.threads cfg.enqueuer).onQueue = false) (hn : .unblock cfg.enqueuer ∉ s'.pending) :
    (s.threads cfg.enqueuer).currentState = statesReady := by
  by_cases hE : cfg.enqueuer = t
  · obtain ⟨p, _, he⟩ := h.woke_pending hon hw hpc
    rw [he, hE] at hn
    exact absurd (List.mem_append_right _ List.mem_cons_self) hn
  · rw [hw.others _ hE] at ho
    exact h.woken hpc ho fun hm => hn (hw.pending_subset hm)

/-- Its timer is off once it is removed. -/
theorem Inv.woke_timer (h : Inv cfg init s) (hon : (s.threads t).onQueue = true)
    (hw : Woke cfg w t s s') (hpc : s.pc = .done)
    (ho : (s'.threads cfg.enqueuer).onQueue = false) (hn : .removeTimer cfg.enqueuer ∉ s'.pending) :
    (s.threads cfg.enqueuer).timer = .inactive := by
  by_cases hE : cfg.enqueuer = t
  · obtain ⟨p, hp, he⟩ := h.woke_pending hon hw hpc
    obtain rfl | ⟨_, hp⟩ := hp
    · rw [he, hE] at hn
      exact absurd (List.mem_append_left _ (List.mem_singleton.mpr rfl)) hn
    · rw [hE]
      exact hp hE.symm
  · rw [hw.others _ hE] at ho
    exact h.timerDone hpc ho fun hm => hn (hw.pending_subset hm)

/-- A waker finds no waker before it, and its code is what the call returns. -/
theorem Inv.woke_noWaker (h : Inv cfg init s) (hon : (s.threads t).onQueue = true)
    (hw : Woke cfg w t s s') (hm : s.pc = .start ∨ (s'.threads cfg.enqueuer).onQueue = true) :
    s'.wakes cfg.enqueuer = [] ∧ (s'.threads cfg.enqueuer).returnCode = init := by
  by_cases hE : cfg.enqueuer = t
  · rw [hE, hw.onQueue] at hm
    have h0 := h.startOff (.inl (hm.resolve_right (by simp)))
    rw [hE, hon] at h0
    exact absurd h0 (by simp)
  · rw [hw.others _ hE] at hm ⊢
    rw [hw.wakes, Function.update_of_ne hE]
    exact h.noWaker hm

theorem Inv.woke_oneWaker (h : Inv cfg init s) (hon : (s.threads t).onQueue = true)
    (hw : Woke cfg w t s s') (hpc : s.pc ≠ .start)
    (ho : (s'.threads cfg.enqueuer).onQueue = false) :
    ∃ w, s'.wakes cfg.enqueuer = [w] ∧ (s'.threads cfg.enqueuer).returnCode = w.code cfg init := by
  by_cases hE : cfg.enqueuer = t
  · obtain ⟨h0, hr⟩ := h.noWaker (.inr (hE ▸ hon))
    refine ⟨w, ?_, ?_⟩
    · rw [hw.wakes, ← hE, Function.update_self, h0]
    · rw [hE, hw.returnCode hE.symm, ← hE, hr]
  · rw [hw.others _ hE] at ho ⊢
    rw [hw.wakes, Function.update_of_ne hE]
    exact h.oneWaker hpc ho

/-- **Every waker keeps the invariant.** -/
theorem Inv.woke (h : Inv cfg init s) (hon : (s.threads t).onQueue = true)
    (hw : Woke cfg w t s s') : Inv cfg init s' := by
  obtain ⟨hcs, htm, htc⟩ := hw.enqueuer_eq
  refine
    { nodup := hw.queue ▸ h.nodup.erase t
      mem := h.woke_mem hw
      operations := fun u hu => ?_
      flagsOn := fun u hu => ?_
      flagsOff := fun u hu => ?_
      flagsWoken := fun hpc ho => ?_
      blocking := fun u hu hpc => h.woke_blocking hon hw hu (hw.pc ▸ hpc)
      unblockOff := fun u hu => h.woke_unblockOff hw hu
      unblockOnce := fun u => ?_
      count := h.woke_unblocks hon hw
      late := fun op hop he => ?_
      startOff := fun hpc => ?_
      early := fun hpc => hcs ▸ h.early (hw.pc ▸ hpc)
      mid := fun hm hne => hcs ▸ h.mid (hw.pc ▸ hm) (hw.pc ▸ hne)
      woken := fun hpc ho hn => hcs ▸ h.woke_ready hon hw (hw.pc ▸ hpc) ho hn
      timerEarly := fun hpc => htm ▸ h.timerEarly (hw.pc ▸ hpc)
      timerInsert := fun hpc => htm ▸ h.timerInsert (hw.pc ▸ hpc)
      timerDone := fun hpc ho hn => htm ▸ h.woke_timer hon hw (hw.pc ▸ hpc) ho hn
      timerFired := fun hm => htm ▸ h.timerFired (hw.timeout_mem hm)
      timeoutCode := fun hm => ?_
      noWaker := fun hm => h.woke_noWaker hon hw (hw.pc ▸ hm)
      oneWaker := fun hpc ho => h.woke_oneWaker hon hw (hw.pc ▸ hpc) ho }
  · obtain ⟨hut, hu'⟩ := hw.still_onQueue hu
    rw [hw.others u hut]
    exact h.operations u hu'
  · obtain ⟨hut, hu'⟩ := hw.still_onQueue hu
    rw [hw.others u hut, hw.pc]
    exact h.flagsOn u hu'
  · by_cases hut : u = t
    · exact .inl (hut ▸ hw.flags)
    · rw [hw.others u hut] at hu ⊢
      exact (h.flagsOff u hu).imp id fun hq => ⟨hq.1, fun hm => hq.2 (hw.timeout_mem hm)⟩
  · by_cases hE : cfg.enqueuer = t
    · exact hE ▸ hw.flags
    · rw [hw.others _ hE] at ho ⊢
      exact h.flagsWoken (hw.pc ▸ hpc) ho
  · by_cases hut : u = t
    · have := h.woke_count hon hw
      rw [hut]
      omega
    · rw [hw.count_other hut]
      exact h.unblockOnce u
  · rw [hw.pc]
    obtain hm | ⟨hi, hm⟩ := hw.mem_pending hop
    · exact h.late op hm he
    · refine h.woke_done hon ?_ hi
      obtain rfl | rfl := he <;> obtain hm | hm := hm <;> cases hm <;> rfl
  · by_cases hE : cfg.enqueuer = t
    · exact hE ▸ hw.onQueue
    · rw [hw.others _ hE]
      exact h.startOff (hw.pc ▸ hpc)
  · rw [htm] at hm
    rw [htc]
    exact h.timeoutCode (hm.imp id hw.timeout_mem)

end Woke

/-! ## The stack of interrupt code -/

section Isr

variable {cfg : Config Tid} {init : Nat} {t : Tid} {s : State Tid} {op : Isr Tid}
  {rest : List (Isr Tid)}

/-- The pieces the invariant speaks of. -/
def Isr.Tracked : Isr Tid → Prop
  | .removeTimer _ | .unblock _ | .timeout _ => True
  | _ => False

omit [DecidableEq Tid] in
theorem mem_cons_tracked {l : List (Isr Tid)} {a : Isr Tid} (hop : ¬ op.Tracked)
    (ha : a.Tracked) : a ∈ op :: l ↔ a ∈ l := by
  rw [List.mem_cons]
  exact ⟨fun h => h.resolve_left fun e => hop (e ▸ ha), .inr⟩

theorem count_cons_tracked {l : List (Isr Tid)} (hop : ¬ op.Tracked) :
    (op :: l).count (.unblock t) = l.count (.unblock t) := by
  rw [List.count_cons_of_ne]
  rintro rfl
  exact hop trivial

/-- The invariant reads the stack only at the pieces it tracks. -/
theorem Inv.of_pending {l : List (Isr Tid)} (h : Inv cfg init s)
    (hmem : ∀ a : Isr Tid, a.Tracked → (a ∈ l ↔ a ∈ s.pending))
    (hcount : ∀ u, l.count (.unblock u) = s.pending.count (.unblock u)) :
    Inv cfg init { s with pending := l } := by
  have hT : ∀ u, Isr.timeout u ∈ l ↔ Isr.timeout u ∈ s.pending := fun u => hmem _ trivial
  have hU : ∀ u, Isr.unblock u ∈ l ↔ Isr.unblock u ∈ s.pending := fun u => hmem _ trivial
  have hR : ∀ u, Isr.removeTimer u ∈ l ↔ Isr.removeTimer u ∈ s.pending := fun u => hmem _ trivial
  exact
    { h with
      flagsOff := fun u hu => (h.flagsOff u hu).imp id fun hq => ⟨hq.1, mt (hT u).mp hq.2⟩
      blocking := fun u hu => h.blocking u (hu.imp id (hU u).mp)
      unblockOff := fun u hu => h.unblockOff u ((hU u).mp hu)
      unblockOnce := fun u => (hcount u).symm ▸ h.unblockOnce u
      count := fun u => (hcount u).symm ▸ h.count u
      late := fun a ha he => h.late a ((hmem a (by obtain rfl | rfl := he <;> trivial)).mp ha) he
      woken := fun hpc ho hn => h.woken hpc ho (mt (hU _).mpr hn)
      timerDone := fun hpc ho hn => h.timerDone hpc ho (mt (hR _).mpr hn)
      timerFired := fun hm => h.timerFired ((hT _).mp hm)
      timeoutCode := fun hm => h.timeoutCode (hm.imp id (hT _).mp) }

theorem Inv.push (h : Inv cfg init s) (op : Isr Tid) (hop : ¬ op.Tracked) :
    Inv cfg init { s with pending := op :: s.pending } :=
  h.of_pending (fun _ ha => mem_cons_tracked hop ha) fun _ => count_cons_tracked hop

theorem Inv.pop (h : Inv cfg init s) (hs : s.pending = op :: rest) (hop : ¬ op.Tracked) :
    Inv cfg init { s with pending := rest } :=
  h.of_pending (fun a ha => by rw [hs]; exact (mem_cons_tracked hop ha).symm)
    fun u => by rw [hs]; exact (count_cons_tracked hop).symm

/-- A piece that is gone from the stack no longer constrains the state, apart
from the two pieces of an unblock. -/
theorem Inv.pop_timeout (h : Inv cfg init s) (hs : s.pending = .timeout t :: rest) :
    Inv cfg init { s with pending := rest } := by
  have hmem : ∀ a : Isr Tid, a ∈ rest → a ∈ s.pending := fun a ha => by
    rw [hs]; exact List.mem_cons_of_mem _ ha
  have hmem' : ∀ a : Isr Tid, a ≠ .timeout t → (a ∈ s.pending ↔ a ∈ rest) := fun a ha => by
    rw [hs, List.mem_cons]; exact ⟨fun h => h.resolve_left ha, .inr⟩
  have hcount : ∀ u, s.pending.count (.unblock u) = rest.count (.unblock u) := fun u => by
    rw [hs, List.count_cons_of_ne]; simp
  exact
    { h with
      flagsOff := fun u hu => (h.flagsOff u hu).imp id fun hq => ⟨hq.1, fun hm => hq.2 (hmem _ hm)⟩
      blocking := fun u hu => h.blocking u (hu.imp id (hmem _))
      unblockOff := fun u hu => h.unblockOff u (hmem _ hu)
      unblockOnce := fun u => hcount u ▸ h.unblockOnce u
      count := fun u => hcount u ▸ h.count u
      late := fun a ha => h.late a (hmem a ha)
      woken := fun hpc ho hn => h.woken hpc ho (mt (hmem' _ (by simp)).mp hn)
      timerDone := fun hpc ho hn => h.timerDone hpc ho (mt (hmem' _ (by simp)).mp hn)
      timerFired := fun hm => h.timerFired (hmem _ hm)
      timeoutCode := fun hm => h.timeoutCode (hm.imp id (hmem _)) }

/-! ## The wakers -/

theorem extractCritical_threads (cfg : Config Tid) (s : State Tid) (t : Tid) (w : Waker) :
    (extractCritical cfg w s t).threads =
    Function.update s.threads t
      { s.threads t with onQueue := false, operations := .default, flags := readyAgain } := by
  unfold extractCritical unblockCritical
  split <;> simp [extractLocked, State.modify]

theorem extractCritical_pending (cfg : Config Tid) (s : State Tid) (t : Tid) (w : Waker) :
    (extractCritical cfg w s t).pending =
    if (s.threads t).flags = intendToBlock then s.pending
    else .removeTimer t :: .unblock t :: s.pending := by
  have hflags : ((extractLocked cfg s t).threads t).flags = (s.threads t).flags := by
    simp [extractLocked, State.modify]
  unfold extractCritical unblockCritical
  rw [hflags]
  split <;> rfl

/-- The rest of the state after `_Thread_queue_Extract_critical`. -/
theorem extractCritical_rest (cfg : Config Tid) (s : State Tid) (t : Tid) (w : Waker) :
    (extractCritical cfg w s t).pc = s.pc ∧
    (extractCritical cfg w s t).unblocks = s.unblocks ∧
    (extractCritical cfg w s t).queue = cfg.operations.extract s.queue t ∧
    (extractCritical cfg w s t).wakes = Function.update s.wakes t (w :: s.wakes t) := by
  unfold extractCritical unblockCritical
  split <;> exact ⟨rfl, rfl, rfl, rfl⟩

theorem woke_extractCritical (hcfg : cfg.Ok) {w : Waker}
    (hw : t = cfg.enqueuer → (s.threads t).returnCode = w.code cfg (s.threads t).returnCode) :
    Woke cfg w t s (extractCritical cfg w s t) := by
  obtain ⟨hpc, hub, hq, hwk⟩ := extractCritical_rest cfg s t w
  have hth := extractCritical_threads cfg s t w
  have hpend := extractCritical_pending cfg s t w
  refine
    { queue := by rw [hq, extract_eq_erase hcfg.operations]
      pc := hpc
      unblocks := hub
      wakes := hwk
      others := fun u hu => by rw [hth, Function.update_of_ne hu]
      onQueue := by rw [hth, Function.update_self]
      flags := by rw [hth, Function.update_self]
      currentState := by rw [hth, Function.update_self]
      timer := by rw [hth, Function.update_self]
      timeoutCode := by rw [hth, Function.update_self]
      returnCode := fun he => by rw [hth, Function.update_self]; exact hw he
      pending := ?_ }
  by_cases hi : (s.threads t).flags = intendToBlock
  · exact .inl ⟨hi, by rw [hpend, if_pos hi]⟩
  · exact .inr ⟨hi, [.removeTimer t], .inl rfl, by rw [hpend, if_neg hi]; rfl⟩

theorem Inv.extract (h : Inv cfg init s) (hcfg : cfg.Ok) (hon : (s.threads t).onQueue = true) :
    Inv cfg init (extractCritical cfg .extracted s t) :=
  h.woke hon (woke_extractCritical hcfg fun _ => rfl)

/-- One turn of the flush loop wakes the first thread with the status. -/
theorem Inv.flush (h : Inv cfg init s) (hcfg : cfg.Ok) (hon : (s.threads t).onQueue = true)
    (status : Nat) :
    Inv cfg init (extractCritical cfg (.flushed status)
      (s.modify t fun c => { c with returnCode := status }) t) := by
  have hth : (s.modify t fun c => { c with returnCode := status }).threads t =
      { s.threads t with returnCode := status } := by simp [State.modify]
  have hw := woke_extractCritical (w := .flushed status) (t := t)
    (s := s.modify t fun c => { c with returnCode := status }) hcfg
    (fun _ => by rw [hth]; rfl)
  refine h.woke (w := .flushed status) hon
    { hw with
      others := fun u hu => ?_
      currentState := hw.currentState.trans (by rw [hth])
      timer := hw.timer.trans (by rw [hth])
      timeoutCode := hw.timeoutCode.trans (by rw [hth])
      pending := by have := hw.pending; rw [hth] at this; exact this }
  rw [hw.others u hu]
  simp [State.modify, hu]

theorem threadTimeout_threads (hr : (s.threads t).flags &&& waitStateReadyAgain = 0#32)
    (hc : (s.threads t).flags &&& waitClassMask = waitClassObject) :
    (threadTimeout s t).threads = Function.update s.threads t
      { s.threads t with
        returnCode := (s.threads t).timeoutCode, onQueue := false, operations := .default
        flags := readyAgain } := by
  unfold threadTimeout
  rw [if_pos hr, hc]
  simp only [doTimeout, State.modify, Function.update_self, Function.update_idem]
  split <;> rfl

theorem threadTimeout_pending (hr : (s.threads t).flags &&& waitStateReadyAgain = 0#32)
    (hc : (s.threads t).flags &&& waitClassMask = waitClassObject) :
    (threadTimeout s t).pending =
      if (s.threads t).flags = intendToBlock then s.pending else .unblock t :: s.pending := by
  unfold threadTimeout
  rw [if_pos hr, hc]
  simp only [doTimeout, State.modify, Function.update_self]
  change (if (s.threads t).flags = intendToBlock then _ else _ : State Tid).pending = _
  split <;> rfl

/-- The rest of the state after a timeout that ends the wait. -/
theorem threadTimeout_rest (hr : (s.threads t).flags &&& waitStateReadyAgain = 0#32) :
    (threadTimeout s t).pc = s.pc ∧ (threadTimeout s t).unblocks = s.unblocks ∧
    (threadTimeout s t).queue = (s.threads t).operations.extract s.queue t ∧
    (threadTimeout s t).wakes = Function.update s.wakes t (.timedOut :: s.wakes t) := by
  unfold threadTimeout
  rw [if_pos hr]
  simp only [doTimeout, State.modify, Function.update_self]
  split <;> exact ⟨rfl, rfl, rfl, rfl⟩

/-- The timeout of a thread that was not woken yet takes it off the queue. -/
theorem Inv.woke_timeout (h : Inv cfg init s) (hcfg : cfg.Ok)
    (hs : s.pending = .timeout t :: rest)
    (hr : (s.threads t).flags &&& waitStateReadyAgain = 0#32) :
    t ∈ s.queue ∧
      Woke cfg .timedOut t { s with pending := rest } (threadTimeout { s with pending := rest } t) := by
  have hmem : .timeout t ∈ s.pending := by rw [hs]; exact List.mem_cons_self
  have hon : (s.threads t).onQueue = true := by
    by_contra hoff
    obtain hf | ⟨_, hf⟩ := h.flagsOff t (by simpa using hoff)
    · rw [hf] at hr
      exact absurd hr (by decide)
    · exact hf hmem
  have hc : (s.threads t).flags &&& waitClassMask = waitClassObject := by
    rw [h.flagsOn t hon]
    split <;> decide
  obtain ⟨hpc, hub, hq, hwk⟩ := threadTimeout_rest (s := { s with pending := rest }) hr
  have hth := threadTimeout_threads (s := { s with pending := rest }) hr hc
  have hpend := threadTimeout_pending (s := { s with pending := rest }) hr hc
  refine ⟨(h.mem t).mpr hon,
    { queue := by rw [hq, h.operations t hon, extract_eq_erase hcfg.operations]
      pc := hpc
      unblocks := hub
      wakes := hwk
      others := fun u hu => by rw [hth, Function.update_of_ne hu]
      onQueue := by rw [hth, Function.update_self]
      flags := by rw [hth, Function.update_self]
      currentState := by rw [hth, Function.update_self]
      timer := by rw [hth, Function.update_self]
      timeoutCode := by rw [hth, Function.update_self]
      returnCode := fun he => by
        rw [hth, Function.update_self]
        exact he ▸ h.timeoutCode (.inr (he ▸ hmem))
      pending := ?_ }⟩
  by_cases hi : (s.threads t).flags = intendToBlock
  · exact .inl ⟨hi, by rw [hpend, if_pos hi]⟩
  · refine .inr ⟨hi, [], .inr ⟨rfl, fun he => ?_⟩, by rw [hpend, if_neg hi]; rfl⟩
    exact he ▸ h.timerFired (he ▸ hmem)

theorem Inv.timeout (h : Inv cfg init s) (hcfg : cfg.Ok) (hs : s.pending = .timeout t :: rest) :
    Inv cfg init (threadTimeout { s with pending := rest } t) := by
  have hpop := h.pop_timeout hs
  by_cases hr : (s.threads t).flags &&& waitStateReadyAgain = 0#32
  · obtain ⟨hmem, hw⟩ := h.woke_timeout hcfg hs hr
    exact hpop.woke ((h.mem t).mp hmem) hw
  · unfold threadTimeout
    rw [if_neg hr]
    exact hpop

/-! ## Timers, unblocks and other threads -/

/-- Removing a timer keeps every field but the timer. -/
theorem watchdogRemove_threads (u : Tid) : (watchdogRemove s t).threads u =
    { s.threads u with timer := if u = t then .inactive else (s.threads u).timer } := by
  by_cases hu : u = t
  · subst hu
    simp [watchdogRemove, State.modify]
  · simp [watchdogRemove, State.modify, hu]

/-- A timer that is not being inserted may be taken off the chain. -/
theorem Inv.watchdogRemove (h : Inv cfg init s) (hpc : t = cfg.enqueuer → s.pc ≠ .timerInsert) :
    Inv cfg init (watchdogRemove s t) := by
  have hth := watchdogRemove_threads (s := s) (t := t)
  have howed : ∀ u, owed cfg (ThreadQueue.watchdogRemove s t) u = owed cfg s u := fun u => by
    simp only [owed, hth]
    rfl
  have hoff : ∀ u, ((ThreadQueue.watchdogRemove s t).threads u).timer ≠ .inactive →
      (s.threads u).timer ≠ .inactive := by
    intro u hu
    rw [hth] at hu
    by_cases hut : u = t
    · simp [hut] at hu
    · simpa [hut] using hu
  have hon : ∀ u, (s.threads u).timer = .inactive →
      ((ThreadQueue.watchdogRemove s t).threads u).timer = .inactive := fun u hu => by
    by_contra hc
    exact hoff u hc hu
  refine
    { nodup := h.nodup
      mem := fun u => by rw [hth]; exact h.mem u
      operations := fun u => by rw [hth]; exact h.operations u
      flagsOn := fun u => by rw [hth]; exact h.flagsOn u
      flagsOff := fun u hu => ?_
      flagsWoken := by rw [hth]; exact h.flagsWoken
      blocking := fun u => by rw [hth]; exact h.blocking u
      unblockOff := fun u => by rw [hth]; exact h.unblockOff u
      unblockOnce := h.unblockOnce
      count := fun u => by rw [howed]; exact h.count u
      late := h.late
      startOff := by rw [hth]; exact h.startOff
      early := by rw [hth]; exact h.early
      mid := by rw [hth]; exact h.mid
      woken := by rw [hth]; exact h.woken
      timerEarly := fun hp => hon _ (h.timerEarly hp)
      timerInsert := fun hp => ?_
      timerDone := fun hp ho hn => hon _ (h.timerDone hp (by rw [hth] at ho; exact ho) hn)
      timerFired := fun hm => hon _ (h.timerFired hm)
      timeoutCode := fun hm => ?_
      noWaker := by rw [hth]; exact h.noWaker
      oneWaker := by rw [hth]; exact h.oneWaker }
  · rw [hth] at hu
    rw [hth]
    refine (h.flagsOff u hu).imp id fun hq => ⟨?_, hq.2⟩
    have := hon u hq.1
    rwa [hth] at this
  · have hne : cfg.enqueuer ≠ t := fun he => hpc he.symm hp
    rw [hth]
    simpa [hne] using h.timerInsert hp
  · have := h.timeoutCode (hm.imp (hoff _) id)
    rw [hth]
    exact this

/-- An expiring timer leaves its timeout routine to run. -/
theorem Inv.expire (h : Inv cfg init s) (ha : (s.threads t).timer = .active) :
    Inv cfg init { ThreadQueue.watchdogRemove s t with
      pending := .timeout t :: (ThreadQueue.watchdogRemove s t).pending } := by
  have hr : Inv cfg init (ThreadQueue.watchdogRemove s t) := h.watchdogRemove fun he hp => by
    rw [he, h.timerInsert hp] at ha
    cases ha
  have hth := watchdogRemove_threads (s := s) (t := t)
  have hmem : ∀ {a : Isr Tid} {l : List (Isr Tid)}, a ∈ Isr.timeout t :: l → a = .timeout t ∨ a ∈ l :=
    fun hm => List.mem_cons.mp hm
  have hcount : ∀ (u : Tid) (l : List (Isr Tid)),
      (Isr.timeout t :: l).count (.unblock u) = l.count (.unblock u) := fun u l => by simp
  refine
    { hr with
      flagsOff := fun u hu => ?_
      blocking := fun u hu => hr.blocking u (hu.imp id fun hm => (hmem hm).resolve_left (by simp))
      unblockOff := fun u hu => hr.unblockOff u ((hmem hu).resolve_left (by simp))
      unblockOnce := fun u => by rw [hcount]; exact hr.unblockOnce u
      count := fun u => by rw [hcount]; exact hr.count u
      late := fun a hm he => hr.late a ((hmem hm).resolve_left (by rintro rfl; simp at he)) he
      woken := fun hp ho hn => hr.woken hp ho fun hm => hn (List.mem_cons_of_mem _ hm)
      timerDone := fun hp ho hn => hr.timerDone hp ho fun hm => hn (List.mem_cons_of_mem _ hm)
      timerFired := fun hm => ?_
      timeoutCode := fun hm => ?_ }
  · by_cases hut : u = t
    · -- The timer was running, so a thread off the queue was woken before.
      rw [hth] at hu ⊢
      refine .inl ((h.flagsOff u hu).resolve_right fun hq => ?_)
      rw [hut, ha] at hq
      cases hq.1
    · exact (hr.flagsOff u hu).imp id fun hq => ⟨hq.1, fun hm => hq.2
        ((hmem hm).resolve_left fun he => hut (Isr.timeout.inj he))⟩
  · obtain hm | hm := hmem hm
    · have he : cfg.enqueuer = t := Isr.timeout.inj hm
      change ((ThreadQueue.watchdogRemove s t).threads cfg.enqueuer).timer = .inactive
      rw [hth]
      simp [he]
    · exact hr.timerFired hm
  · by_cases he : cfg.enqueuer = t
    · have := h.timeoutCode (.inl (by rw [he, ha]; simp))
      change ((ThreadQueue.watchdogRemove s t).threads cfg.enqueuer).timeoutCode = cfg.timeoutCode
      rw [hth]
      exact this
    · exact hr.timeoutCode (hm.imp id fun hm => (hmem hm).resolve_left fun hc =>
        he (Isr.timeout.inj hc))

theorem Inv.removeTimer (h : Inv cfg init s) (hs : s.pending = .removeTimer t :: rest) :
    Inv cfg init (ThreadQueue.watchdogRemove { s with pending := rest } t) := by
  have hmem : ∀ a : Isr Tid, a ∈ rest → a ∈ s.pending := fun a ha => by
    rw [hs]; exact List.mem_cons_of_mem _ ha
  have hmem' : ∀ a : Isr Tid, a ≠ .removeTimer t → (a ∈ s.pending ↔ a ∈ rest) := fun a ha => by
    rw [hs, List.mem_cons]; exact ⟨fun h => h.resolve_left ha, .inr⟩
  have hcount : ∀ u, s.pending.count (.unblock u) = rest.count (.unblock u) := fun u => by
    rw [hs, List.count_cons_of_ne]; simp
  have hr : Inv cfg init (ThreadQueue.watchdogRemove s t) := h.watchdogRemove fun he hp => by
    have := h.late (.removeTimer t) (by rw [hs]; exact List.mem_cons_self) (.inr (by rw [he]))
    rw [this] at hp
    cases hp
  have hth := watchdogRemove_threads (s := { s with pending := rest }) (t := t)
  exact
    { hr with
      flagsOff := fun u hu => (hr.flagsOff u hu).imp id fun hq => ⟨hq.1, fun hm => hq.2 (hmem _ hm)⟩
      blocking := fun u hu => hr.blocking u (hu.imp id (hmem _))
      unblockOff := fun u hu => hr.unblockOff u (hmem _ hu)
      unblockOnce := fun u => hcount u ▸ h.unblockOnce u
      count := fun u => hcount u ▸ hr.count u
      late := fun a ha => hr.late a (hmem a ha)
      woken := fun hpc ho hn => hr.woken hpc ho (mt (hmem' _ (by simp)).mp hn)
      timerDone := fun hpc ho hn => by
        by_cases he : cfg.enqueuer = t
        · rw [hth]
          simp [he]
        · exact hr.timerDone hpc ho (mt (hmem' _ (by simpa using he)).mp hn)
      timerFired := fun hm => hr.timerFired (hmem _ hm)
      timeoutCode := fun hm => hr.timeoutCode (hm.imp id (hmem _)) }

/-- `_Thread_Unblock` of a thread in a blocking state makes it ready. -/
theorem threadUnblock_eq (hb : Blocking (s.threads t).currentState) : threadUnblock s t =
    { s.modify t (fun c => { c with currentState := statesReady }) with
      unblocks := Function.update s.unblocks t (s.unblocks t + 1) } := by
  unfold threadUnblock
  rw [if_pos hb.clear.1, hb.clear.2]
  exact congrArg (fun n => { s.modify t (fun c => { c with currentState := statesReady }) with
    unblocks := n }) (if_pos rfl)

theorem modify_currentState (st : BitVec 32) (u : Tid) :
    (s.modify t fun c => { c with currentState := st }).threads u =
      { s.threads u with currentState := if u = t then st else (s.threads u).currentState } := by
  by_cases hu : u = t
  · subst hu
    simp [State.modify]
  · simp [State.modify, hu]

theorem Inv.unblock (h : Inv cfg init s) (hs : s.pending = .unblock t :: rest) :
    Inv cfg init (threadUnblock { s with pending := rest } t) := by
  have hmem : ∀ a : Isr Tid, a ∈ rest → a ∈ s.pending := fun a ha => by
    rw [hs]; exact List.mem_cons_of_mem _ ha
  have hmem' : ∀ a : Isr Tid, a ≠ .unblock t → (a ∈ s.pending ↔ a ∈ rest) := fun a ha => by
    rw [hs, List.mem_cons]; exact ⟨fun h => h.resolve_left ha, .inr⟩
  have htm : .unblock t ∈ s.pending := by rw [hs]; exact List.mem_cons_self
  have hdone : t = cfg.enqueuer → s.pc = .done := fun he => h.late _ htm (.inl (by rw [he]))
  have hcount : ∀ u, s.pending.count (.unblock u) =
      rest.count (.unblock u) + if u = t then 1 else 0 := fun u => by
    rw [hs, List.count_cons]
    by_cases hu : u = t
    · simp [hu]
    · simp [hu, Ne.symm hu]
  have hzero : rest.count (.unblock t) = 0 := by
    have h1 := h.unblockOnce t
    have h2 := hcount t
    rw [if_pos rfl] at h2
    omega
  have hb := h.blocking t (.inr htm) hdone
  rw [threadUnblock_eq (s := { s with pending := rest }) hb]
  have hth := modify_currentState (s := { s with pending := rest }) (t := t) statesReady
  have howed : ∀ u, owed cfg ({ ({ s with pending := rest } : State Tid).modify t (fun c =>
      { c with currentState := statesReady }) with
      unblocks := Function.update s.unblocks t (s.unblocks t + 1) }) u = owed cfg s u := fun u => by
    simp only [owed, hth]
    rfl
  refine
    { nodup := h.nodup
      mem := fun u => by rw [hth]; exact h.mem u
      operations := fun u => by rw [hth]; exact h.operations u
      flagsOn := fun u => by rw [hth]; exact h.flagsOn u
      flagsOff := fun u => by
        rw [hth]
        exact fun hu => (h.flagsOff u hu).imp id fun hq => ⟨hq.1, fun hm => hq.2 (hmem _ hm)⟩
      flagsWoken := by rw [hth]; exact h.flagsWoken
      blocking := fun u hu hp => ?_
      unblockOff := fun u hu => by rw [hth]; exact h.unblockOff u (hmem _ hu)
      unblockOnce := fun u => ?_
      count := fun u => ?_
      late := fun a ha => h.late a (hmem a ha)
      startOff := by rw [hth]; exact h.startOff
      early := fun hp => ?_
      mid := fun hm hne => ?_
      woken := fun hp ho hn => ?_
      timerEarly := by rw [hth]; exact h.timerEarly
      timerInsert := by rw [hth]; exact h.timerInsert
      timerDone := fun hp => by
        rw [hth]
        exact fun ho hn => h.timerDone hp ho (mt (hmem' _ (by simp)).mp hn)
      timerFired := fun hm => by rw [hth]; exact h.timerFired (hmem _ hm)
      timeoutCode := by
        rw [hth]
        exact fun hm => h.timeoutCode (hm.imp id (hmem _))
      noWaker := by rw [hth]; exact h.noWaker
      oneWaker := by rw [hth]; exact h.oneWaker }
  · have hut : u ≠ t := by
      rintro rfl
      rw [hth] at hu
      obtain hu | hu := hu
      · rw [h.unblockOff u htm] at hu
        cases hu
      · exact absurd hu (List.count_eq_zero.mp hzero)
    rw [hth] at hu ⊢
    simp only [hut, if_false]
    exact h.blocking u (hu.imp id (hmem _)) hp
  · have := h.unblockOnce u
    have := hcount u
    change rest.count (.unblock u) ≤ 1
    omega
  · have h1 := h.count u
    have h2 := hcount u
    rw [howed]
    change Function.update s.unblocks t (s.unblocks t + 1) u + rest.count (.unblock u) + _ =
      (s.wakes u).length
    by_cases hut : u = t
    · subst hut
      rw [if_pos rfl] at h2
      rw [Function.update_self]
      omega
    · rw [if_neg hut] at h2
      rw [Function.update_of_ne hut]
      omega
  · rw [hth]
    by_cases he : cfg.enqueuer = t
    · simp [he]
    · simp only [he, if_false]
      exact h.early hp
  · have he : cfg.enqueuer ≠ t := fun he => hm.2 (hdone he.symm)
    rw [hth]
    simp only [he, if_false]
    exact h.mid hm hne
  · rw [hth] at ho ⊢
    by_cases he : cfg.enqueuer = t
    · simp [he]
    · simp only [he, if_false]
      exact h.woken hp ho (mt (hmem' _ (by simpa using he)).mp hn)

/-- Another thread that blocks joins the queue and touches nothing else. -/
theorem Inv.enqueueOther (h : Inv cfg init s) (hcfg : cfg.Ok) (st : BitVec 32) (ticks code : Nat) :
    Inv cfg init (enqueueOther cfg s t st ticks code) := by
  simp only [ThreadQueue.enqueueOther]
  by_cases hg : t ≠ cfg.enqueuer ∧ (s.threads t).currentState = statesReady ∧
      (s.threads t).onQueue = false ∧ (s.threads t).timer = .inactive ∧
      st ≠ 0#32 ∧ statesClear statesBlocked st = statesReady
  case neg => rwa [if_neg hg]
  case pos =>
    rw [if_pos hg]
    obtain ⟨hne, hready, hoff, htimer, hst⟩ := hg
    have htq : t ∉ s.queue := by
      rw [h.mem t, hoff]
      simp
    have hU : .unblock t ∉ s.pending := fun hm => by
      have hb := h.blocking t (.inr hm) (fun he => absurd he hne)
      exact hb.1 hready
    have hE : cfg.enqueuer ≠ t := fun he => hne he.symm
    generalize hc : ({ s.threads t with
      currentState := statesSet st (s.threads t).currentState, flags := blocked
      onQueue := true, operations := cfg.operations
      timeoutCode := if ticks = 0 then (s.threads t).timeoutCode else code
      timer := if ticks = 0 then .inactive else .active } : ThreadControl) = c'
    have hself : ∀ u, u = t → Function.update s.threads t c' u = c' := fun u hu => by
      rw [hu, Function.update_self]
    have hoth : ∀ u, u ≠ t → Function.update s.threads t c' u = s.threads u := fun u hu =>
      Function.update_of_ne hu _ _
    have hcon : c'.onQueue = true := by rw [← hc]
    refine
      { nodup := nodup_enqueue h.nodup htq
        mem := fun u => ?_
        operations := fun u hu => ?_
        flagsOn := fun u hu => ?_
        flagsOff := fun u hu => ?_
        flagsWoken := by simpa only [hoth _ hE] using h.flagsWoken
        blocking := fun u hu hp => ?_
        unblockOff := fun u hu => ?_
        unblockOnce := h.unblockOnce
        count := fun u => ?_
        late := h.late
        startOff := by simpa only [hoth _ hE] using h.startOff
        early := by simpa only [hoth _ hE] using h.early
        mid := by simpa only [hoth _ hE] using h.mid
        woken := by simpa only [hoth _ hE] using h.woken
        timerEarly := by simpa only [hoth _ hE] using h.timerEarly
        timerInsert := by simpa only [hoth _ hE] using h.timerInsert
        timerDone := by simpa only [hoth _ hE] using h.timerDone
        timerFired := by simpa only [hoth _ hE] using h.timerFired
        timeoutCode := by simpa only [hoth _ hE] using h.timeoutCode
        noWaker := by simpa only [hoth _ hE] using h.noWaker
        oneWaker := by simpa only [hoth _ hE] using h.oneWaker }
    all_goals by_cases hut : u = t
    all_goals first
      | simp only [hself u hut] at *
      | simp only [hoth u hut] at *
    · simp [mem_enqueue hcfg.operations, hut, hcon]
    · simpa [mem_enqueue hcfg.operations, hut] using h.mem u
    · rw [← hc]
    · exact h.operations u hu
    · rw [if_neg fun hk => hne (hut ▸ hk.1), ← hc]
    · exact h.flagsOn u hu
    · rw [hcon] at hu
      cases hu
    · exact h.flagsOff u hu
    · rw [← hc, hready, statesSet_ready]
      exact hst
    · exact h.blocking u hu hp
    · exact absurd (hut ▸ hu) hU
    · exact h.unblockOff u hu
    · have h1 := h.count u
      have h2 : owed cfg s u = 0 := by
        rw [owed, if_neg fun hk => hne (hut ▸ hk.1)]
      rw [h2] at h1
      rw [owed, if_neg fun hk => hne (hut ▸ hk.1)]
      exact h1
    · have h1 := h.count u
      simp only [owed, hoth u hut] at h1 ⊢
      exact h1

end Isr

/-! ## The enqueuer -/

section Enqueuer

variable {cfg : Config Tid} {init : Nat} {s s' : State Tid}

/-- What the invariant says of the enqueuer while no interrupt code is left. -/
structure AtPc (cfg : Config Tid) (init : Nat) (pc : Pc) (c : ThreadControl) (wakes : List Waker)
    (unblocks : Nat) : Prop where
  operations : c.onQueue = true → c.operations = cfg.operations
  flagsOn : c.onQueue = true → c.flags = if pc ≠ .done then intendToBlock else blocked
  flagsOff : c.onQueue = false → c.flags = readyAgain ∨ c.timer = .inactive
  flagsWoken : pc ≠ .start → c.onQueue = false → c.flags = readyAgain
  blocking : c.onQueue = true → pc = .done → Blocking c.currentState
  count : unblocks + (if pc.Mid ∧ c.onQueue = false then 1 else 0) = wakes.length
  startOff : pc = .start ∨ pc = .unblockTimer ∨ pc = .unblockState → c.onQueue = false
  early : pc = .start ∨ pc = .setState → c.currentState = statesReady
  mid : pc.Mid → pc ≠ .setState → Blocking c.currentState
  woken : pc = .done → c.onQueue = false → c.currentState = statesReady
  timerEarly : pc = .start ∨ pc = .setState ∨ pc = .timerInit ∨ pc = .unblockState →
    c.timer = .inactive
  timerInsert : pc = .timerInsert → c.timer = .beingInserted
  timerDone : pc = .done → c.onQueue = false → c.timer = .inactive
  timeoutCode : c.timer ≠ .inactive → c.timeoutCode = cfg.timeoutCode
  noWaker : pc = .start ∨ c.onQueue = true → wakes = [] ∧ c.returnCode = init
  oneWaker : pc ≠ .start → c.onQueue = false → ∃ w, wakes = [w] ∧ c.returnCode = w.code cfg init

theorem Inv.atPc (h : Inv cfg init s) (hp : s.pending = []) :
    AtPc cfg init s.pc (s.threads cfg.enqueuer) (s.wakes cfg.enqueuer)
      (s.unblocks cfg.enqueuer) where
  operations := h.operations _
  flagsOn hon := by simpa using h.flagsOn _ hon
  flagsOff hoff := (h.flagsOff _ hoff).imp id And.left
  flagsWoken := h.flagsWoken
  blocking hon hpc := h.blocking _ (.inl hon) fun _ => hpc
  count := by simpa [owed, hp] using h.count cfg.enqueuer
  startOff := h.startOff
  early := h.early
  mid := h.mid
  woken hpc hoff := h.woken hpc hoff (by simp [hp])
  timerEarly := h.timerEarly
  timerInsert := h.timerInsert
  timerDone hpc hoff := h.timerDone hpc hoff (by simp [hp])
  timeoutCode ht := h.timeoutCode (.inl ht)
  noWaker := h.noWaker
  oneWaker := h.oneWaker

/-- A statement of the enqueuer that keeps its own part of the invariant keeps
the whole of it. -/
theorem Inv.of_atPc (h : Inv cfg init s) (hp : s.pending = []) (hp' : s'.pending = [])
    (hoth : ∀ u, u ≠ cfg.enqueuer → s'.threads u = s.threads u) (hw : s'.wakes = s.wakes)
    (hub : ∀ u, u ≠ cfg.enqueuer → s'.unblocks u = s.unblocks u) (hnodup : s'.queue.Nodup)
    (hmem : ∀ u, u ≠ cfg.enqueuer → (u ∈ s'.queue ↔ u ∈ s.queue))
    (hmemE : cfg.enqueuer ∈ s'.queue ↔ (s'.threads cfg.enqueuer).onQueue = true)
    (hE : AtPc cfg init s'.pc (s'.threads cfg.enqueuer) (s.wakes cfg.enqueuer)
      (s'.unblocks cfg.enqueuer)) : Inv cfg init s' := by
  have hnil : ∀ a : Isr Tid, a ∉ s'.pending := fun a => by simp [hp']
  refine
    { nodup := hnodup
      mem := fun u => ?_
      operations := fun u hu => ?_
      flagsOn := fun u hu => ?_
      flagsOff := fun u hu => ?_
      flagsWoken := hE.flagsWoken
      blocking := fun u hu hpc => ?_
      unblockOff := fun u hu => absurd hu (hnil _)
      unblockOnce := fun u => by simp [hp']
      count := fun u => ?_
      late := fun a ha => absurd ha (hnil a)
      startOff := hE.startOff
      early := hE.early
      mid := hE.mid
      woken := fun hpc hoff _ => hE.woken hpc hoff
      timerEarly := hE.timerEarly
      timerInsert := hE.timerInsert
      timerDone := fun hpc hoff _ => hE.timerDone hpc hoff
      timerFired := fun hm => absurd hm (hnil _)
      timeoutCode := fun hm => hE.timeoutCode (hm.resolve_right (hnil _))
      noWaker := hw ▸ hE.noWaker
      oneWaker := hw ▸ hE.oneWaker }
  all_goals by_cases hu' : u = cfg.enqueuer
  · rw [hu']
    exact hmemE
  · rw [hmem u hu', hoth u hu']
    exact h.mem u
  · rw [hu'] at hu ⊢
    exact hE.operations hu
  · rw [hoth u hu'] at hu ⊢
    exact h.operations u hu
  · rw [hu'] at hu ⊢
    simpa using hE.flagsOn hu
  · rw [hoth u hu'] at hu ⊢
    simpa [hu'] using h.flagsOn u hu
  · rw [hu'] at hu ⊢
    exact (hE.flagsOff hu).imp id fun ht => ⟨ht, hnil _⟩
  · rw [hoth u hu'] at hu ⊢
    exact (h.flagsOff u hu).imp id fun ht => ⟨ht.1, hnil _⟩
  · rw [hu'] at hu ⊢
    exact hE.blocking (hu.resolve_right (hnil _)) (hpc hu')
  · rw [hoth u hu'] at hu ⊢
    exact h.blocking u (.inl (hu.resolve_right (hnil _))) fun he => absurd he hu'
  · rw [hu', hw, hp']
    simpa [owed] using hE.count
  · rw [hub u hu', hw, hp']
    simpa [owed, hu', hp] using h.count u

/-- The enqueuer's control block after a change to it. -/
theorem modify_self (s : State Tid) (f : ThreadControl → ThreadControl) (t : Tid) :
    (s.modify t f).threads t = f (s.threads t) := by simp [State.modify]

theorem modify_other (s : State Tid) (f : ThreadControl → ThreadControl) {t u : Tid}
    (h : u ≠ t) : (s.modify t f).threads u = s.threads u := by simp [State.modify, h]

theorem Inv.thread_start (h : Inv cfg init s) (hcfg : cfg.Ok) (hp : s.pending = [])
    (hpc : s.pc = .start) : Inv cfg init (threadStep cfg s) := by
  have hE := h.atPc hp
  rw [hpc] at hE
  have hoff := hE.startOff (.inl rfl)
  have hnot : cfg.enqueuer ∉ s.queue := by
    rw [h.mem, hoff]
    simp
  obtain ⟨hw0, hr0⟩ := hE.noWaker (.inl rfl)
  have hc := hE.count
  simp only [threadStep, hpc]
  refine h.of_atPc hp hp (fun u hu => Function.update_of_ne hu _ _) rfl (fun _ _ => rfl)
    (nodup_enqueue h.nodup hnot) (fun u hu => ?_) ?_ ?_
  · rw [mem_enqueue hcfg.operations]
    simp [hu]
  · rw [mem_enqueue hcfg.operations, modify_self]
    simp
  · rw [modify_self]
    exact
      { operations := fun _ => rfl
        flagsOn := fun _ => rfl
        flagsOff := fun hf => absurd hf (by simp)
        flagsWoken := fun _ hf => absurd hf (by simp)
        blocking := fun _ hd => absurd hd (by simp)
        count := by simpa [Pc.Mid, State.modify] using hc
        startOff := fun hd => absurd hd (by simp)
        early := fun _ => hE.early (.inl rfl)
        mid := fun _ hd => absurd rfl hd
        woken := fun hd => absurd hd (by simp)
        timerEarly := fun _ => hE.timerEarly (.inl rfl)
        timerInsert := fun hd => absurd hd (by simp)
        timerDone := fun hd => absurd hd (by simp)
        timeoutCode := hE.timeoutCode
        noWaker := fun _ => ⟨hw0, hr0⟩
        oneWaker := fun _ hf => absurd hf (by simp) }

/-- A statement that writes the enqueuer's control block and no more. -/
theorem Inv.of_local (h : Inv cfg init s) (hp : s.pending = []) {pc : Pc}
    {f : ThreadControl → ThreadControl}
    (hon : (f (s.threads cfg.enqueuer)).onQueue = (s.threads cfg.enqueuer).onQueue)
    (hE : AtPc cfg init pc (f (s.threads cfg.enqueuer)) (s.wakes cfg.enqueuer)
      (s.unblocks cfg.enqueuer)) :
    Inv cfg init { s.modify cfg.enqueuer f with pc := pc } := by
  refine h.of_atPc hp hp (fun u hu => modify_other s f hu) rfl (fun _ _ => rfl) h.nodup
    (fun _ _ => Iff.rfl) ?_ ?_
  · change _ ↔ ((s.modify cfg.enqueuer f).threads cfg.enqueuer).onQueue = true
    rw [modify_self, hon]
    exact h.mem _
  · change AtPc cfg init pc ((s.modify cfg.enqueuer f).threads cfg.enqueuer) _ _
    rw [modify_self]
    exact hE

theorem Inv.thread_setState (h : Inv cfg init s) (hcfg : cfg.Ok) (hp : s.pending = [])
    (hpc : s.pc = .setState) : Inv cfg init (threadStep cfg s) := by
  have hE := h.atPc hp
  rw [hpc] at hE
  have hready := hE.early (.inr rfl)
  have hset : statesSet cfg.state (s.threads cfg.enqueuer).currentState = cfg.state := by
    rw [hready, statesSet_ready]
  have hc := hE.count
  simp only [threadStep, hpc]
  refine h.of_local hp rfl ?_
  rw [hset]
  by_cases h0 : cfg.timeout = 0
  all_goals
    simp only [h0, if_true, if_false]
    exact
      { operations := hE.operations
        flagsOn := fun hon => hE.flagsOn hon
        flagsOff := hE.flagsOff
        flagsWoken := fun _ => hE.flagsWoken (by simp)
        blocking := fun _ _ => hcfg.state
        count := by simpa [Pc.Mid] using hc
        startOff := fun hd => absurd hd (by simp)
        early := fun hd => absurd hd (by simp)
        mid := fun _ _ => hcfg.state
        woken := fun hd => absurd hd (by simp)
        timerEarly := fun _ => hE.timerEarly (.inr (.inl rfl))
        timerInsert := fun hd => absurd hd (by simp)
        timerDone := fun hd => absurd hd (by simp)
        timeoutCode := hE.timeoutCode
        noWaker := fun hd => hE.noWaker (.inr (hd.resolve_left (by simp)))
        oneWaker := fun _ => hE.oneWaker (by simp) }

theorem Inv.thread_timerInit (h : Inv cfg init s) (hp : s.pending = [])
    (hpc : s.pc = .timerInit) : Inv cfg init (threadStep cfg s) := by
  have hE := h.atPc hp
  rw [hpc] at hE
  have hc := hE.count
  have hmid := hE.mid ⟨by simp, by simp⟩ (by simp)
  simp only [threadStep, hpc]
  refine h.of_local hp rfl ?_
  exact
    { operations := hE.operations
      flagsOn := fun hon => hE.flagsOn hon
      -- A thread off the queue was woken, so the new timer finds the flag set.
      flagsOff := fun hoff => .inl (hE.flagsWoken (by simp) hoff)
      flagsWoken := fun _ => hE.flagsWoken (by simp)
      blocking := fun _ _ => hmid
      count := by simpa [Pc.Mid] using hc
      startOff := fun hd => absurd hd (by simp)
      early := fun hd => absurd hd (by simp)
      mid := fun _ _ => hmid
      woken := fun hd => absurd hd (by simp)
      timerEarly := fun hd => absurd hd (by simp)
      timerInsert := fun _ => rfl
      timerDone := fun hd => absurd hd (by simp)
      timeoutCode := fun _ => rfl
      noWaker := fun hd => hE.noWaker (.inr (hd.resolve_left (by simp)))
      oneWaker := fun _ => hE.oneWaker (by simp) }

theorem Inv.thread_timerInsert (h : Inv cfg init s) (hp : s.pending = [])
    (hpc : s.pc = .timerInsert) : Inv cfg init (threadStep cfg s) := by
  have hE := h.atPc hp
  rw [hpc] at hE
  have hc := hE.count
  have hmid := hE.mid ⟨by simp, by simp⟩ (by simp)
  have hins := hE.timerInsert rfl
  simp only [threadStep, hpc]
  refine h.of_local hp rfl ?_
  rw [if_pos hins]
  exact
    { operations := hE.operations
      flagsOn := fun hon => hE.flagsOn hon
      flagsOff := fun hoff => .inl (hE.flagsWoken (by simp) hoff)
      flagsWoken := fun _ => hE.flagsWoken (by simp)
      blocking := fun _ _ => hmid
      count := by simpa [Pc.Mid] using hc
      startOff := fun hd => absurd hd (by simp)
      early := fun hd => absurd hd (by simp)
      mid := fun _ _ => hmid
      woken := fun hd => absurd hd (by simp)
      timerEarly := fun hd => absurd hd (by simp)
      timerInsert := fun hd => absurd hd (by simp)
      timerDone := fun hd => absurd hd (by simp)
      timeoutCode := fun _ => hE.timeoutCode (by rw [hins]; simp)
      noWaker := fun hd => hE.noWaker (.inr (hd.resolve_left (by simp)))
      oneWaker := fun _ => hE.oneWaker (by simp) }

/-- The race is decided here: whoever came before this statement has changed
the flags, and whoever comes after it finds a blocked thread. -/
theorem Inv.thread_tryChange (h : Inv cfg init s) (hp : s.pending = [])
    (hpc : s.pc = .tryChange) : Inv cfg init (threadStep cfg s) := by
  have hE := h.atPc hp
  rw [hpc] at hE
  have hc := hE.count
  have hmid := hE.mid ⟨by simp, by simp⟩ (by simp)
  simp only [threadStep, hpc]
  by_cases hi : (s.threads cfg.enqueuer).flags = intendToBlock
  · have hon : (s.threads cfg.enqueuer).onQueue = true := by
      by_contra hoff
      have := hE.flagsWoken (by simp) (by simpa using hoff)
      rw [hi] at this
      exact absurd this (by decide)
    rw [if_pos hi]
    refine h.of_local hp rfl ?_
    exact
      { operations := hE.operations
        flagsOn := fun _ => rfl
        flagsOff := fun hoff => absurd hoff (by simp [hon])
        flagsWoken := fun _ hoff => absurd hoff (by simp [hon])
        blocking := fun _ _ => hmid
        count := by simpa [Pc.Mid, hon] using hc
        startOff := fun hd => absurd hd (by simp)
        early := fun hd => absurd hd (by simp)
        mid := fun hd => absurd rfl hd.2
        woken := fun _ hoff => absurd hoff (by simp [hon])
        timerEarly := fun hd => absurd hd (by simp)
        timerInsert := fun hd => absurd hd (by simp)
        timerDone := fun _ hoff => absurd hoff (by simp [hon])
        timeoutCode := hE.timeoutCode
        noWaker := fun _ => hE.noWaker (.inr hon)
        oneWaker := fun _ hoff => absurd hoff (by simp [hon]) }
  · have hoff : (s.threads cfg.enqueuer).onQueue = false := by
      by_contra hon
      have := hE.flagsOn (by simpa using hon)
      exact hi (by simpa using this)
    rw [if_neg hi]
    refine h.of_atPc hp hp (fun _ _ => rfl) rfl (fun _ _ => rfl) h.nodup (fun _ _ => Iff.rfl)
      (h.mem _) ?_
    exact
      { operations := hE.operations
        flagsOn := fun hon => absurd hon (by simp [hoff])
        flagsOff := hE.flagsOff
        flagsWoken := fun _ => hE.flagsWoken (by simp)
        blocking := fun _ _ => hmid
        count := by simpa [Pc.Mid] using hc
        startOff := fun _ => hoff
        early := fun hd => absurd hd (by simp)
        mid := fun _ _ => hmid
        woken := fun hd => absurd hd (by simp)
        timerEarly := fun hd => absurd hd (by simp)
        timerInsert := fun hd => absurd hd (by simp)
        timerDone := fun hd => absurd hd (by simp)
        timeoutCode := hE.timeoutCode
        noWaker := fun hd => absurd hd (by simp [hoff])
        oneWaker := fun _ => hE.oneWaker (by simp) }

theorem Inv.thread_unblockTimer (h : Inv cfg init s) (hp : s.pending = [])
    (hpc : s.pc = .unblockTimer) : Inv cfg init (threadStep cfg s) := by
  have hE := h.atPc hp
  rw [hpc] at hE
  have hc := hE.count
  have hmid := hE.mid ⟨by simp, by simp⟩ (by simp)
  have hoff := hE.startOff (.inr (.inl rfl))
  simp only [threadStep, hpc]
  refine h.of_local hp rfl ?_
  exact
    { operations := hE.operations
      flagsOn := fun hon => absurd hon (by simp [hoff])
      flagsOff := fun _ => .inr rfl
      flagsWoken := fun _ => hE.flagsWoken (by simp)
      blocking := fun _ _ => hmid
      count := by simpa [Pc.Mid] using hc
      startOff := fun _ => hoff
      early := fun hd => absurd hd (by simp)
      mid := fun _ _ => hmid
      woken := fun hd => absurd hd (by simp)
      timerEarly := fun _ => rfl
      timerInsert := fun hd => absurd hd (by simp)
      timerDone := fun hd => absurd hd (by simp)
      timeoutCode := fun ht => absurd rfl ht
      noWaker := fun hd => absurd hd (by simp [hoff])
      oneWaker := fun _ => hE.oneWaker (by simp) }

/-- The enqueuer that lost the race makes itself ready. -/
theorem Inv.thread_unblockState (h : Inv cfg init s) (hp : s.pending = [])
    (hpc : s.pc = .unblockState) : Inv cfg init (threadStep cfg s) := by
  have hE := h.atPc hp
  rw [hpc] at hE
  have hc := hE.count
  have hmid := hE.mid ⟨by simp, by simp⟩ (by simp)
  have hoff := hE.startOff (.inr (.inr rfl))
  have htimer := hE.timerEarly (.inr (.inr (.inr rfl)))
  simp only [threadStep, hpc]
  rw [threadUnblock_eq hmid]
  refine h.of_atPc hp hp (fun u hu => Function.update_of_ne hu _ _) rfl
    (fun u hu => Function.update_of_ne hu _ _) h.nodup (fun _ _ => Iff.rfl) ?_ ?_
  · rw [modify_self]
    exact h.mem _
  · rw [modify_self]
    change AtPc cfg init .done _ _
      (Function.update s.unblocks cfg.enqueuer (s.unblocks cfg.enqueuer + 1) cfg.enqueuer)
    rw [Function.update_self]
    exact
      { operations := hE.operations
        flagsOn := fun hon => absurd hon (by simp [hoff])
        flagsOff := hE.flagsOff
        flagsWoken := fun _ => hE.flagsWoken (by simp)
        blocking := fun hon => absurd hon (by simp [hoff])
        count := by simpa [Pc.Mid, hoff] using hc
        startOff := fun _ => hoff
        early := fun hd => absurd hd (by simp)
        mid := fun hd => absurd rfl hd.2
        woken := fun _ _ => rfl
        timerEarly := fun _ => htimer
        timerInsert := fun hd => absurd hd (by simp)
        timerDone := fun _ _ => htimer
        timeoutCode := hE.timeoutCode
        noWaker := fun hd => absurd hd (by simp [hoff])
        oneWaker := fun _ => hE.oneWaker (by simp) }

theorem Inv.thread (h : Inv cfg init s) (hcfg : cfg.Ok) (hp : s.pending = []) :
    Inv cfg init (threadStep cfg s) := by
  cases hpc : s.pc with
  | start => exact h.thread_start hcfg hp hpc
  | setState => exact h.thread_setState hcfg hp hpc
  | timerInit => exact h.thread_timerInit hp hpc
  | timerInsert => exact h.thread_timerInsert hp hpc
  | tryChange => exact h.thread_tryChange hp hpc
  | unblockTimer => exact h.thread_unblockTimer hp hpc
  | unblockState => exact h.thread_unblockState hp hpc
  | done =>
    have : threadStep cfg s = s := by simp only [threadStep, hpc]
    rwa [this]

end Enqueuer

/-! ## Whole runs -/

section Runs

variable {cfg : Config Tid} {init : Nat} {s s' : State Tid}

theorem Inv.of_start (h : Start cfg s) : Inv cfg (s.threads cfg.enqueuer).returnCode s where
  nodup := h.nodup
  mem := h.mem
  operations := h.operations
  flagsOn t hon := by
    have hne : t ≠ cfg.enqueuer := by
      rintro rfl
      rw [h.off] at hon
      cases hon
    rw [if_neg fun hc => hne hc.1]
    exact h.flags t hon
  flagsOff t hoff := .inr ⟨h.timer t hoff, by simp [h.pending]⟩
  flagsWoken hpc := absurd h.pc hpc
  blocking t hu _ := h.blocking t (hu.resolve_right (by simp [h.pending]))
  unblockOff t hu := absurd hu (by simp [h.pending])
  unblockOnce t := by simp [h.pending]
  count t := by simp [h.pending, h.unblocks, h.wakes, owed, h.pc, Pc.Mid]
  late op hop := absurd hop (by simp [h.pending])
  startOff _ := h.off
  early _ := h.ready
  mid hm := absurd h.pc hm.1
  woken hd := absurd hd (by simp [h.pc])
  timerEarly _ := h.timer _ h.off
  timerInsert hd := absurd hd (by simp [h.pc])
  timerDone hd := absurd hd (by simp [h.pc])
  timerFired hm := absurd hm (by simp [h.pending])
  timeoutCode hm := absurd (h.timer _ h.off) (hm.resolve_right (by simp [h.pending]))
  noWaker _ := ⟨h.wakes _, rfl⟩
  oneWaker hd := absurd h.pc hd

/-- One piece of interrupt code keeps the invariant. -/
theorem Inv.isr (h : Inv cfg init s) (hcfg : cfg.Ok) {op : Isr Tid} {rest : List (Isr Tid)}
    (hs : s.pending = op :: rest) : Inv cfg init (isrStep cfg { s with pending := rest } op) := by
  cases op with
  | extract t =>
    have hpop := h.pop hs (fun h => h)
    simp only [isrStep]
    split
    case isTrue hon => exact hpop.extract hcfg hon
    case isFalse => exact hpop
  | dequeue =>
    have hpop := h.pop hs (fun h => h)
    simp only [isrStep]
    split
    case h_1 => exact hpop
    case h_2 t q hq => exact hpop.extract hcfg ((hpop.mem t).mp (by rw [hq]; simp))
  | flush status =>
    have hpop := h.pop hs (fun h => h)
    simp only [isrStep]
    split
    case h_1 => exact hpop
    case h_2 t q hq =>
      have hpush := hpop.push (.flush status) (fun h => h)
      exact hpush.flush hcfg ((hpop.mem t).mp (by rw [hq]; simp)) status
  | expire t =>
    have hpop := h.pop hs (fun h => h)
    simp only [isrStep]
    split
    case isTrue ha => exact hpop.expire ha
    case isFalse => exact hpop
  | enqueueOther t st ticks code => exact (h.pop hs (fun h => h)).enqueueOther hcfg st ticks code
  | timeout t => exact h.timeout hcfg hs
  | removeTimer t => exact h.removeTimer hs
  | unblock t => exact h.unblock hs

/-- **One step of the system keeps the invariant.** -/
theorem Inv.step (h : Inv cfg init s) (hcfg : cfg.Ok) (hstep : Step cfg s s') :
    Inv cfg init s' := by
  cases hstep with
  | thread hp => exact h.thread hcfg hp
  | isr hs => exact h.isr hcfg hs
  | @interrupt op _ ha =>
    refine h.push op fun ht => ?_
    cases op <;> first | exact ht | exact ha

theorem Inv.run (hcfg : cfg.Ok) (h0 : Start cfg s) (hrun : Relation.ReflTransGen (Step cfg) s s') :
    Inv cfg (s.threads cfg.enqueuer).returnCode s' :=
  Reach.invariant hrun (.of_start h0) fun _ _ h hstep => h.step hcfg hstep

end Runs

end Rtems.ThreadQueue
