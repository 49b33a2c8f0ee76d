import Rtems.ThreadQueue.Blocking

/-!
# What a blocking call ends in

The enqueue call always can finish, and when it has finished and the interrupt
code has run, the thread either waits or is ready again.
-/

namespace Rtems.ThreadQueue

open Lib

variable {Tid : Type} [DecidableEq Tid] {cfg : Config Tid} {init : Nat} {s s0 : State Tid}

/-- The call is finished and no interrupt code is left. -/
def Finished (s : State Tid) : Prop := s.pc = .done ∧ s.pending = []

/-- The thread waits: blocked, queued exactly once, with flags that say so. -/
def Waits (s : State Tid) (t : Tid) : Prop :=
  Blocking (s.threads t).currentState ∧ s.queue.count t = 1 ∧ (s.threads t).flags = blocked

/-- The thread is ready, off the queue and without a running timer. -/
def ReadyAgain (s : State Tid) (t : Tid) : Prop :=
  (s.threads t).currentState = statesReady ∧ t ∉ s.queue ∧ (s.threads t).timer = .inactive

/-! ## Finished calls -/

theorem Inv.waits (h : Inv cfg init s) (hf : Finished s)
    (hon : (s.threads cfg.enqueuer).onQueue = true) :
    Waits s cfg.enqueuer ∧ s.wakes cfg.enqueuer = [] := by
  have hflags := h.flagsOn _ hon
  rw [if_neg fun hc => hc.2 hf.1] at hflags
  exact ⟨⟨h.blocking _ (.inl hon) fun _ => hf.1,
    by rw [h.nodup.count, if_pos ((h.mem _).mpr hon)], hflags⟩, (h.noWaker (.inr hon)).1⟩

theorem Inv.readyAgain (h : Inv cfg init s) (hf : Finished s)
    (hoff : (s.threads cfg.enqueuer).onQueue = false) :
    ReadyAgain s cfg.enqueuer ∧ ∃ w, s.wakes cfg.enqueuer = [w] ∧
      (s.threads cfg.enqueuer).returnCode = w.code cfg init := by
  refine ⟨⟨h.woken hf.1 hoff (by simp [hf.2]), ?_, h.timerDone hf.1 hoff (by simp [hf.2])⟩,
    h.oneWaker (by simp [hf.1]) hoff⟩
  rw [h.mem, hoff]
  simp

theorem Inv.unblocks_eq (h : Inv cfg init s) (hf : Finished s) (t : Tid) :
    s.unblocks t = (s.wakes t).length := by
  have := h.count t
  rw [owed, if_neg fun hc => hc.2.1.2 hf.1, hf.2] at this
  simpa using this

theorem Inv.wakes_length (h : Inv cfg init s) : (s.wakes cfg.enqueuer).length ≤ 1 := by
  by_cases hw : s.pc = .start ∨ (s.threads cfg.enqueuer).onQueue = true
  · rw [(h.noWaker hw).1]
    exact Nat.zero_le 1
  · obtain ⟨hpc, hoff⟩ := not_or.mp hw
    obtain ⟨w, hw, _⟩ := h.oneWaker hpc (by simpa using hoff)
    rw [hw]
    exact Nat.le_refl 1

/-! ## The call can always finish -/

/-- How much code a piece leaves to run at most, when a queued thread counts
for four. -/
def Isr.weight : Isr Tid → Nat
  | .flush _ | .removeTimer _ | .unblock _ => 1
  | .timeout _ => 2
  | .extract _ | .dequeue | .expire _ => 3
  | .enqueueOther .. => 5

/-- The statements left to the enqueuer. -/
def Pc.left : Pc → Nat
  | .start => 7
  | .setState => 6
  | .timerInit => 5
  | .timerInsert => 4
  | .tryChange => 3
  | .unblockTimer => 2
  | .unblockState => 1
  | .done => 0

/-- The work the interrupt code has before it. -/
def work (s : State Tid) : Nat := (s.pending.map Isr.weight).sum + 4 * s.queue.length

theorem Woke.work_lt {w : Waker} {t : Tid} {s' : State Tid} (hw : Woke cfg w t s s')
    (ht : t ∈ s.queue) : work s' + 1 < work s := by
  have hlen : s'.queue.length + 1 = s.queue.length := by
    rw [hw.queue, List.length_erase_of_mem ht]
    have := List.length_pos_of_mem ht
    omega
  obtain ⟨_, he⟩ | ⟨_, p, hp, he⟩ := hw.pending
  · simp only [work, he]
    omega
  · obtain rfl | ⟨rfl, _⟩ := hp
    all_goals
      simp only [work, he, List.map_append, List.map_cons, List.map_nil, List.sum_append,
        List.sum_cons, List.sum_nil, Isr.weight]
      omega

omit [DecidableEq Tid] in
theorem work_pop (op : Isr Tid) {rest : List (Isr Tid)} (hs : s.pending = op :: rest) :
    work s = op.weight + work { s with pending := rest } := by
  simp only [work, hs, List.map_cons, List.sum_cons]
  omega

omit [DecidableEq Tid] in
theorem length_enqueue_le (op : Operations) (prio : Tid → Priority) (q : List Tid) (t : Tid) :
    (op.enqueue prio q t).length ≤ q.length + 1 := by
  cases op with
  | default => exact Nat.le_succ _
  | fifo => simp [Operations.enqueue]
  | priority => exact Nat.le_of_eq (length_stableInsert prio t q)

/-- Interrupt code that runs has less work before it afterwards. -/
theorem Inv.work_isr (h : Inv cfg init s) (hcfg : cfg.Ok) {op : Isr Tid}
    {rest : List (Isr Tid)} (hs : s.pending = op :: rest) :
    work (isrStep cfg { s with pending := rest } op) < work s := by
  rw [work_pop op hs]
  cases op with
  | extract t =>
    simp only [isrStep, Isr.weight]
    split
    case isTrue hon =>
      have hw := woke_extractCritical (s := { s with pending := rest }) (t := t) hcfg
        (w := .extracted) fun _ => rfl
      have := hw.work_lt ((h.mem t).mpr hon)
      omega
    case isFalse => omega
  | dequeue =>
    simp only [isrStep, Isr.weight]
    split
    case h_1 => omega
    case h_2 t q hq =>
      have hw := woke_extractCritical (s := { s with pending := rest }) (t := t) hcfg
        (w := .extracted) fun _ => rfl
      have := hw.work_lt (by rw [hq]; exact List.mem_cons_self)
      omega
  | flush status =>
    simp only [isrStep, Isr.weight]
    split
    case h_1 => omega
    case h_2 t q hq =>
      have hw := woke_extractCritical (t := t) hcfg (w := .flushed status)
        (s := ({ s with pending := .flush status :: rest } : State Tid).modify t
          fun c => { c with returnCode := status }) fun _ => by simp [State.modify, Waker.code]
      have hlt := hw.work_lt (by change t ∈ s.queue; exact hq ▸ List.mem_cons_self)
      have hpush : work (({ s with pending := .flush status :: rest } : State Tid).modify t
          fun c => { c with returnCode := status }) =
          1 + work ({ s with pending := rest } : State Tid) :=
        work_pop (.flush status) rfl
      omega
  | expire t =>
    simp only [isrStep, Isr.weight]
    split
    case isTrue =>
      have hpush : work ({ ThreadQueue.watchdogRemove { s with pending := rest } t with
          pending := .timeout t :: rest } : State Tid) =
          2 + work ({ s with pending := rest } : State Tid) :=
        work_pop (.timeout t) rfl
      exact hpush ▸ by omega
    case isFalse => omega
  | enqueueOther t st ticks code =>
    simp only [isrStep, Isr.weight, ThreadQueue.enqueueOther]
    split
    · have := length_enqueue_le cfg.operations (fun u => (s.threads u).currentPriority) s.queue t
      simp only [work]
      omega
    · omega
  | timeout t =>
    simp only [isrStep, Isr.weight]
    by_cases hr : (s.threads t).flags &&& waitStateReadyAgain = 0#32
    · obtain ⟨hmem, hw⟩ := h.woke_timeout hcfg hs hr
      have := hw.work_lt hmem
      omega
    · simp only [threadTimeout, hr, if_false]
      omega
  | removeTimer t =>
    simp only [isrStep, Isr.weight]
    exact Nat.lt_add_of_pos_left Nat.one_pos
  | unblock t =>
    simp only [isrStep, Isr.weight, threadUnblock]
    split
    · exact Nat.lt_add_of_pos_left Nat.one_pos
    · omega

/-- The enqueuer that runs gets nearer to the end of the call. -/
theorem left_threadStep (hpc : s.pc ≠ .done) : (threadStep cfg s).pc.left < s.pc.left := by
  cases h : s.pc with
  | done => exact absurd h hpc
  | setState =>
    simp only [threadStep, h]
    split <;> decide
  | tryChange =>
    simp only [threadStep, h]
    split <;> simp [Pc.left]
  | unblockState =>
    simp only [threadStep, h]
    decide
  | start | timerInit | timerInsert | unblockTimer =>
    simp only [threadStep, h]
    decide

theorem threadStep_pending (hp : s.pending = []) :
    (threadStep cfg s).pending = [] := by
  cases hpc : s.pc with
  | tryChange =>
    simp only [threadStep, hpc]
    split <;> exact hp
  | unblockState =>
    simp only [threadStep, hpc, threadUnblock]
    split <;> exact hp
  | start | setState | timerInit | timerInsert | unblockTimer | done =>
    simp only [threadStep, hpc]
    exact hp

/-- Once no further interrupt arrives, the interrupt code runs out. -/
theorem Inv.exists_drained (h : Inv cfg init s) (hcfg : cfg.Ok) :
    ∃ s', Relation.ReflTransGen (Step cfg) s s' ∧ s'.pending = [] := by
  induction hn : work s using Nat.strongRecOn generalizing s with
  | _ n ih =>
    cases hs : s.pending with
    | nil => exact ⟨s, .refl, hs⟩
    | cons op rest =>
      have hlt := h.work_isr hcfg hs
      obtain ⟨s', hrun, hp⟩ := ih _ (hn ▸ hlt) (h.isr hcfg hs) rfl
      exact ⟨s', .head (.isr hs) hrun, hp⟩

/-- From wherever it is, the call can finish. -/
theorem Inv.exists_finished (h : Inv cfg init s) (hcfg : cfg.Ok) :
    ∃ s', Relation.ReflTransGen (Step cfg) s s' ∧ Finished s' := by
  obtain ⟨s1, hrun1, hp⟩ := h.exists_drained hcfg
  have h1 := Reach.invariant hrun1 h fun _ _ hi hstep => hi.step hcfg hstep
  suffices hs : ∃ s', Relation.ReflTransGen (Step cfg) s1 s' ∧ Finished s' by
    obtain ⟨s', hrun, hf⟩ := hs
    exact ⟨s', hrun1.trans hrun, hf⟩
  clear hrun1 h
  induction hn : s1.pc.left using Nat.strongRecOn generalizing s1 with
  | _ n ih =>
    by_cases hpc : s1.pc = .done
    · exact ⟨s1, .refl, hpc, hp⟩
    · obtain ⟨s', hrun, hf⟩ := ih _ (hn ▸ left_threadStep hpc) _
        (threadStep_pending hp) (h1.thread hcfg hp) rfl
      exact ⟨s', .head (.thread hp) hrun, hf⟩

/-! ## The protocol -/

/-- **The blocking protocol.**  In every interleaving the call can finish, and
once it has finished and the interrupt code has run the thread waits or is
ready again.  Every thread a waker took off the queue was made ready exactly
once, a wakeup is not lost, and at most one waker reaches the enqueuer, which
then finds the return code of that waker. -/
theorem enqueue_protocol (cfg : Config Tid) (hcfg : cfg.Ok) (s0 s : State Tid)
    (h0 : Start cfg s0) (hrun : Relation.ReflTransGen (Step cfg) s0 s) :
    (∃ s', Relation.ReflTransGen (Step cfg) s s' ∧ Finished s') ∧
    (Finished s →
      (Waits s cfg.enqueuer ∧ s.wakes cfg.enqueuer = []) ∨
      (ReadyAgain s cfg.enqueuer ∧ ∃ w, s.wakes cfg.enqueuer = [w] ∧
        (s.threads cfg.enqueuer).returnCode =
          w.code cfg (s0.threads cfg.enqueuer).returnCode)) ∧
    (∀ t, s.unblocks t ≤ (s.wakes t).length ∧
      (Finished s → s.unblocks t = (s.wakes t).length)) ∧
    (s.wakes cfg.enqueuer).length ≤ 1 := by
  have h := Inv.run hcfg h0 hrun
  refine ⟨h.exists_finished hcfg, fun hf => ?_, fun t => ⟨?_, fun hf => h.unblocks_eq hf t⟩,
    h.wakes_length⟩
  · cases hq : (s.threads cfg.enqueuer).onQueue with
    | true => exact .inl (h.waits hf hq)
    | false => exact .inr (h.readyAgain hf hq)
  · have := h.count t
    omega

/-- Thread `true` waits for a mutex with a timeout. -/
def exampleConfig : Config Bool where
  enqueuer := true
  operations := .fifo
  state := 0x400#32
  timeout := 5
  timeoutCode := 6

/-- An empty queue and two ready threads. -/
def exampleStart : State Bool where
  threads _ :=
    { currentState := statesReady, currentPriority := 10, flags := 0#32, onQueue := false
      operations := .default, returnCode := 0, timeoutCode := 0, timer := .inactive }
  queue := []
  pending := []
  pc := .start
  wakes _ := []
  unblocks _ := 0

/-- The timer of the thread expires before it has blocked. -/
def exampleTimedOut : State Bool :=
  let cfg := exampleConfig
  let s := threadStep cfg (threadStep cfg (threadStep cfg (threadStep cfg exampleStart)))
  let s := isrStep cfg s (.expire true)
  let s := isrStep cfg { s with pending := [] } (.timeout true)
  threadStep cfg (threadStep cfg (threadStep cfg s))

theorem enqueue_protocol_timedOut : Finished exampleTimedOut ∧
    ReadyAgain exampleTimedOut true ∧ exampleTimedOut.wakes true = [.timedOut] ∧
    (exampleTimedOut.threads true).returnCode = 6 := by
  have hf : Finished exampleTimedOut := ⟨by decide, by decide⟩
  have hrun : Relation.ReflTransGen (Step exampleConfig) exampleStart exampleTimedOut :=
    .head (.thread rfl) <| .head (.thread rfl) <| .head (.thread rfl) <| .head (.thread rfl) <|
      .head (@Step.interrupt _ _ _ _ (.expire true) (by decide) trivial) <| .head (.isr rfl) <|
      .head (.isr rfl) <| .head (.thread rfl) <| .head (.thread rfl) <| .head (.thread rfl) .refl
  have h := enqueue_protocol exampleConfig ⟨by decide, by decide⟩ exampleStart exampleTimedOut
    { pc := rfl, pending := rfl, nodup := List.nodup_nil, mem := by decide
      operations := by decide, flags := by decide, timer := by decide, blocking := by decide
      ready := rfl, off := rfl, wakes := by decide, unblocks := by decide } hrun
  obtain ⟨_, hw⟩ | ⟨hr, w, hw, hc⟩ := h.2.1 hf
  · exact absurd hw (by decide)
  · obtain rfl : w = .timedOut := by
      have : exampleTimedOut.wakes true = [.timedOut] := by decide
      rw [show exampleConfig.enqueuer = true from rfl, this] at hw
      exact (List.cons.inj hw).1.symm
    exact ⟨hf, hr, hw, hc⟩

end Rtems.ThreadQueue
