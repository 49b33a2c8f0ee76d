import Rtems.Condition.Runs
import Rtems.Lib.Runs

/-!
# The mutex of a condition variable

The first wait binds the condition variable to its mutex, and a wait with
another mutex is refused as long as the binding is there.  A signal unbinds only
if it finds no thread on the wait queue.  So the binding outlives the last wait
if the last thread is signaled alone, times out or is interrupted.
-/

namespace Rtems.Condition

open Lib
open ThreadQueue (Waiters)

variable {Tid Mid : Type} [DecidableEq Tid] [DecidableEq Mid] [Fintype Mid]
variable {s s' : State Tid Mid} {t u : Tid} {m : Mid} {w : Waiters Tid Code}

/-- Some thread is in the loop of `_POSIX_Condition_variables_Signal_support`. -/
def State.Signaling (s : State Tid Mid) : Prop := ∃ u b woken, s.pc u = .signaling b woken

/-- The condition variable is bound exactly while threads wait on it.  What a signal leaves behind
is looked at when it is done. -/
structure MutexBound (s : State Tid Mid) : Prop where
  bound_iff : ¬ s.Signaling → (s.mutex ≠ none ↔ ∃ u, u ∈ s.waitQueue.queue)
  /-- A wait is refused only while another thread waits with another mutex. -/
  mismatch : ∀ t m, s.canRun t → s.pc t = .running →
    (waitBegin s t m none).pc t = .returning m .EINVAL →
    ∃ u n, u ≠ t ∧ u ∈ s.waitQueue.queue ∧ s.pc u = .waiting n ∧ n ≠ m

/-- The step takes the last thread off the wait queue, and no signal looks at the queue again. -/
def TakesLast (s : State Tid Mid) : Op Tid Mid → Prop
  | .advance t => (∃ woken, s.pc t = .signaling false woken) ∧ ∃ u, s.waitQueue.queue = [u]
  | .timeout t => ¬ s.Signaling ∧ s.waitQueue.queue = [t] ∧ s.waitQueue.timeoutCode t ≠ none
  | .unblockThread t => ¬ s.Signaling ∧ s.waitQueue.queue = [t]
  | .mutex _ | .wait _ _ _ | .signal _ _ => False

/-! ## The invariant -/

/-- The mutex of a wait that is about to bind the condition variable. -/
def Pc.binding : Pc Tid Mid → Option Mid
  | .unlocking m _ _ | .unlocked m _ => some m
  | _ => none

section

omit [DecidableEq Mid] [DecidableEq Tid] [Fintype Mid]

/-- A place without a binding binds no mutex. -/
theorem Pc.unbound {pc : Pc Tid Mid} (hnone : pc.binding = none) {P : Mid → Prop} (m : Mid)
    (h : pc.binding = some m) : P m := by
  rw [hnone] at h
  cases h

end

structure Bound (s : State Tid Mid) : Prop where
  inv : Inv s
  waiting : ∀ u ∈ s.waitQueue.queue, ∃ m, s.mutex = some m ∧ s.pc u = .waiting m
  binding : ∀ u m, (s.pc u).binding = some m → s.mutex = none ∨ s.mutex = some m
  free : ¬ s.Signaling → s.waitQueue.queue = [] → s.mutex = none

section

omit [DecidableEq Mid]

theorem Bound.start (h : Start s) : Bound s where
  inv := .of_start h
  waiting := by
    intro u hu
    rw [h.waitQueue] at hu
    cases hu
  binding := by
    intro u m hm
    rw [h.pc u] at hm
    cases hm
  free := fun _ _ => h.mutex

end

section

omit [Fintype Mid]

theorem waitBegin_eq (s : State Tid Mid) (t : Tid) (m : Mid) : waitBegin s t m none =
    if s.mutex ≠ none ∧ s.mutex ≠ some m then s.setPc t (.returning m .EINVAL)
    else { s.setPc t (.unlocking m none false) with disabled := some t } := rfl

end

theorem Bound.mutexBound (h : Bound s) : MutexBound s where
  bound_iff := by
    intro hs
    constructor
    · intro hne
      by_contra hempty
      exact hne (h.free hs (List.eq_nil_iff_forall_not_mem.mpr fun u hu => hempty ⟨u, hu⟩))
    · rintro ⟨u, hu⟩
      obtain ⟨m, hm, -⟩ := h.waiting u hu
      rw [hm]
      exact nofun
  mismatch := by
    intro t m hc hpc hret
    have hs : ¬ s.Signaling := by
      rintro ⟨u, b, woken, hu⟩
      have hd : s.disabled = some u := (h.inv.disabled u).mp (by rw [hu]; rfl)
      rcases hc.1 with hn | ht
      · exact absurd (hn.symm.trans hd) nofun
      · obtain rfl : t = u := Option.some.inj (ht.symm.trans hd)
        exact absurd (hpc.symm.trans hu) nofun
    rw [waitBegin_eq] at hret
    split at hret
    next hne =>
      have hqueue : s.waitQueue.queue ≠ [] := fun hempty => hne.1 (h.free hs hempty)
      obtain ⟨u, hu⟩ := List.exists_mem_of_ne_nil _ hqueue
      obtain ⟨n, hn, hw⟩ := h.waiting u hu
      refine ⟨u, n, ?_, hu, hw, ?_⟩
      · rintro rfl
        exact absurd (hpc.symm.trans hw) nofun
      · rintro rfl
        exact hne.2 hn
    next => exact absurd ((setPc_self s t _).symm.trans hret) nofun

/-! ## Steps -/

section

omit [DecidableEq Mid]

/-- A step that binds nothing and puts no thread on the wait queue. -/
theorem Bound.of_step (h : Bound s) (hinv : Inv s') (hmutex : s'.mutex = s.mutex)
    (hqueue : ∀ u ∈ s'.waitQueue.queue, u ∈ s.waitQueue.queue ∧ s'.pc u = s.pc u)
    (hbinding : ∀ u m, (s'.pc u).binding = some m →
      (s.pc u).binding = some m ∨ s.mutex = none ∨ s.mutex = some m)
    (hfree : ¬ s'.Signaling → s'.waitQueue.queue = [] → s.mutex = none) : Bound s' where
  inv := hinv
  waiting := by
    intro u hu
    obtain ⟨hold, hpc⟩ := hqueue u hu
    rw [hmutex, hpc]
    exact h.waiting u hold
  binding := by
    intro u m hm
    rw [hmutex]
    rcases hbinding u m hm with hold | hnow
    · exact h.binding u m hold
    · exact hnow
  free := by
    rw [hmutex]
    exact hfree

/-- A thread that does not wait moves on. -/
theorem Bound.move (h : Bound s) (hinv : Inv s') (hmutex : s'.mutex = s.mutex)
    (hqueue : s'.waitQueue.queue = s.waitQueue.queue) (hout : t ∉ s.waitQueue.queue)
    {pc : Pc Tid Mid} (hpc : s'.pc = Function.update s.pc t pc)
    (hbinding : ∀ m, pc.binding = some m →
      (s.pc t).binding = some m ∨ s.mutex = none ∨ s.mutex = some m)
    (hold : ∀ b woken, s.pc t ≠ .signaling b woken) : Bound s' := by
  refine h.of_step hinv hmutex ?_ ?_ ?_
  · intro u hu
    rw [hqueue] at hu
    have hne : u ≠ t := fun heq => hout (heq ▸ hu)
    exact ⟨hu, by rw [hpc, Function.update_of_ne hne]⟩
  · intro u m hm
    rw [hpc] at hm
    rcases eq_or_ne u t with rfl | hne
    · rw [Function.update_self] at hm
      exact hbinding m hm
    · rw [Function.update_of_ne hne] at hm
      exact .inl hm
  · intro hs hempty
    refine h.free ?_ (hqueue ▸ hempty)
    rintro ⟨u, b, woken, hu⟩
    have hne : u ≠ t := by
      rintro rfl
      exact hold b woken hu
    exact hs ⟨u, b, woken, by rw [hpc, Function.update_of_ne hne, hu]⟩

/-- Only the threads that wait are on the wait queue. -/
theorem Bound.notMem (h : Bound s) (hpc : ∀ m, s.pc t ≠ .waiting m) : t ∉ s.waitQueue.queue := by
  intro ht
  obtain ⟨m, -, hm⟩ := h.waiting t ht
  exact hpc m hm

end

theorem Bound.wait (h : Bound s) (hc : s.canRun t) (hpc : s.pc t = .running)
    (abstime : Option AbsoluteTimeout) : Bound (waitBegin s t m abstime) := by
  have hinv : Inv (waitBegin s t m abstime) := h.inv.wait hc hpc abstime
  have hout : t ∉ s.waitQueue.queue := h.notMem (by rw [hpc]; exact fun _ => nofun)
  have hold : ∀ b woken, s.pc t ≠ .signaling b woken := by
    rw [hpc]
    exact fun _ _ => nofun
  revert hinv
  unfold waitBegin
  split
  next status _ => exact fun hinv => h.move hinv rfl rfl hout rfl (Pc.unbound rfl) hold
  next timeout already _ =>
    split
    next => exact fun hinv => h.move hinv rfl rfl hout rfl (Pc.unbound rfl) hold
    next hmatch =>
      intro hinv
      refine h.move hinv rfl rfl hout rfl ?_ hold
      intro n hn
      obtain rfl : m = n := Option.some.inj hn
      exact .inr (by simpa [or_iff_not_imp_left] using hmatch)

theorem Bound.waitUnlock (h : Bound s) (hc : s.canRun t) {timeout : Option Code} {already : Bool}
    (hpc : s.pc t = .unlocking m timeout already) :
    Bound (waitUnlock s t m timeout already) := by
  have hinv := h.inv.waitUnlock hc hpc
  have hout : t ∉ s.waitQueue.queue := h.notMem (by rw [hpc]; exact fun _ => nofun)
  have hold : ∀ b woken, s.pc t ≠ .signaling b woken := by
    rw [hpc]
    exact fun _ _ => nofun
  have hbinding : (s.pc t).binding = some m := by
    rw [hpc]
    rfl
  revert hinv
  unfold Condition.waitUnlock
  split
  next mutexes _ =>
    dsimp only
    split
    next => exact fun hinv => h.move hinv rfl rfl hout rfl (Pc.unbound rfl) hold
    next =>
      intro hinv
      refine h.move hinv rfl rfl hout rfl ?_ hold
      intro n hn
      exact .inl (hbinding.trans hn)
  next => exact fun hinv => h.move hinv rfl rfl hout rfl (Pc.unbound rfl) hold

section

omit [DecidableEq Mid]

/-- The wait that binds the condition variable waits with the mutex of the others. -/
theorem Bound.waitEnqueue (h : Bound s) (hc : s.canRun t) {timeout : Option Code}
    (hpc : s.pc t = .unlocked m timeout) : Bound (waitEnqueue s t m timeout) := by
  have hmatch : s.mutex = none ∨ s.mutex = some m := h.binding t m (by rw [hpc]; rfl)
  have hd : s.disabled = some t := (h.inv.disabled t).mp (by rw [hpc]; rfl)
  have hqueue : (Condition.waitEnqueue s t m timeout).waitQueue.queue = s.waitQueue.queue ++ [t] := rfl
  refine ⟨h.inv.waitEnqueue hc hpc, ?_, ?_, ?_⟩
  · intro u hu
    refine ⟨m, rfl, ?_⟩
    rw [hqueue] at hu
    rcases List.mem_append.mp hu with hu | hu
    · obtain ⟨n, hn, hw⟩ := h.waiting u hu
      have hne : u ≠ t := by
        rintro rfl
        exact absurd (hpc.symm.trans hw) nofun
      have heq : n = m := by
        rcases hmatch with hnone | hsome
        · exact absurd (hnone.symm.trans hn) nofun
        · exact Option.some.inj (hn.symm.trans hsome)
      rw [← heq, ← hw]
      exact setPc_other s _ hne
    · rw [List.mem_singleton.mp hu]
      exact setPc_self s t _
  · intro u n hn
    rcases eq_or_ne u t with rfl | hne
    · exact absurd ((congrArg Pc.binding (setPc_self s u _)).symm.trans hn) nofun
    · have hu : (s.pc u).binding = some n :=
        (congrArg Pc.binding (setPc_other s _ hne)).symm.trans hn
      have hdu : s.disabled = some u := by
        refine (h.inv.disabled u).mp ?_
        cases e : s.pc u with
        | unlocking _ _ _ => rfl
        | unlocked _ _ => rfl
        | running | waiting _ | locking _ _ | relocking _ _ | returning _ _ | signaling _ _ =>
          rw [e] at hu
          cases hu
      exact absurd (Option.some.inj (hdu.symm.trans hd)) hne
  · intro _ hempty
    rw [hqueue] at hempty
    exact absurd hempty (by simp)

theorem Bound.signalTurn (h : Bound s) (hc : s.canRun t) {b : Bool} {woken : List Tid}
    (hpc : s.pc t = .signaling b woken) (hok : ¬ TakesLast s (.advance t)) :
    Bound (signalTurn s t b woken) := by
  have hinv := h.inv.signalTurn hc hpc
  have hout : t ∉ s.waitQueue.queue := h.notMem (by rw [hpc]; exact fun _ => nofun)
  have hbinding : ∀ (pc : Pc Tid Mid), pc.binding = none → ∀ u m,
      (Function.update s.pc t pc u).binding = some m → (s.pc u).binding = some m := by
    intro pc hnone u m hm
    rcases eq_or_ne u t with rfl | hne
    · rw [Function.update_self, hnone] at hm
      cases hm
    · rwa [Function.update_of_ne hne] at hm
  have hleft : ∀ (pc : Pc Tid Mid) u v, u ∈ s.waitQueue.queue.erase v →
      u ∈ s.waitQueue.queue ∧ Function.update s.pc t pc u = s.pc u := by
    intro pc u v hu
    have hmem := List.mem_of_mem_erase hu
    have hne : u ≠ t := fun heq => hout (heq ▸ hmem)
    exact ⟨hmem, Function.update_of_ne hne _ _⟩
  unfold Condition.signalTurn Waiters.dequeue at hinv ⊢
  cases hf : s.waitQueue.firstLocked with
  | none =>
    rw [hf] at hinv
    have hempty := Waiters.firstLocked_eq_none.mp hf
    refine ⟨hinv, ?_, fun _ _ _ => .inl rfl, fun _ _ => rfl⟩
    intro u (hu : u ∈ s.waitQueue.queue)
    rw [hempty] at hu
    cases hu
  | some v =>
    rw [hf] at hinv
    obtain ⟨q, hq⟩ := Waiters.firstLocked_eq_some.mp hf
    have hqueue : (s.waitQueue.extractCritical .fifo v).queue = s.waitQueue.queue.erase v :=
      Waiters.extractCritical_queue _ _
    cases b with
    | true =>
      refine h.of_step hinv rfl ?_ (fun u m hm => .inl (hbinding _ rfl u m hm)) ?_
      · intro u hu
        exact hleft _ u v (hqueue ▸ hu)
      · intro hs
        exact absurd ⟨t, true, woken ++ [v], setPc_self s t _⟩ hs
    | false =>
      refine h.of_step hinv rfl ?_ (fun u m hm => .inl (hbinding _ rfl u m hm)) ?_
      · intro u hu
        exact hleft _ u v (hqueue ▸ hu)
      · intro _ hempty
        have herase : s.waitQueue.queue.erase v = [] := hqueue.symm.trans hempty
        rw [hq, List.erase_cons_head] at herase
        exact absurd ⟨⟨woken, hpc⟩, v, by rw [hq, herase]⟩ hok

/-- An interrupt takes a thread off the wait queue, and not the last one. -/
theorem Bound.interrupt (h : Bound s) (hinv : Inv { s with waitQueue := w })
    (hq : w.queue = s.waitQueue.queue.erase t)
    (hok : s.waitQueue.queue = [t] → s.Signaling) (ht : t ∈ s.waitQueue.queue) :
    Bound { s with waitQueue := w } := by
  refine h.of_step hinv rfl ?_ (fun u m hm => .inl hm) ?_
  · intro u (hu : u ∈ w.queue)
    rw [hq] at hu
    exact ⟨List.mem_of_mem_erase hu, rfl⟩
  · intro hs hempty
    have herase : s.waitQueue.queue.erase t = [] := hq.symm.trans hempty
    have hone : s.waitQueue.queue = [t] := by
      have hperm := List.perm_cons_erase ht
      rw [herase] at hperm
      exact List.perm_singleton.mp hperm
    exact absurd (hok hone) hs

end

/-! ## Runs -/

theorem Bound.advance (h : Bound s) (he : (Op.advance t : Op Tid Mid).Enabled s)
    (hok : ¬ TakesLast s (.advance t)) : Bound (advance s t) := by
  have hinv := h.inv.advance he
  obtain ⟨hc, hr⟩ := he
  revert hinv
  unfold Condition.advance
  cases hpc : s.pc t with
  | running => exact fun _ => h
  | unlocking m timeout already => exact fun _ => h.waitUnlock hc hpc
  | unlocked m timeout => exact fun _ => h.waitEnqueue hc hpc
  | signaling b woken => exact fun _ => h.signalTurn hc hpc hok
  | waiting m =>
    intro hinv
    have hnodup := List.nodup_append.mp h.inv.nodup
    have hout : t ∉ s.waitQueue.queue := fun hin => hnodup.2.2 t hin t (hr m hpc) rfl
    exact h.move hinv rfl rfl hout rfl (Pc.unbound rfl) (by simp [hpc])
  | locking m status =>
    intro hinv
    have hout : t ∉ s.waitQueue.queue := h.notMem (by simp [hpc])
    exact h.move hinv rfl rfl hout rfl (Pc.unbound rfl) (by simp [hpc])
  | relocking m status =>
    have hout : t ∉ s.waitQueue.queue := h.notMem (by simp [hpc])
    have hold : ∀ b woken, s.pc t ≠ .signaling b woken := by
      simp [hpc]
    show Inv (waitLocked s t m status) → Bound (waitLocked s t m status)
    unfold waitLocked
    split
    next => exact fun hinv => h.move hinv rfl rfl hout rfl (Pc.unbound rfl) hold
    next => exact fun hinv => h.move hinv rfl rfl hout rfl (Pc.unbound rfl) hold
  | returning m status =>
    intro hinv
    have hout : t ∉ s.waitQueue.queue := h.notMem (by simp [hpc])
    exact h.move hinv rfl rfl hout rfl (Pc.unbound rfl) (by simp [hpc])

theorem Bound.run (h : Bound s) {op : Op Tid Mid} (he : op.Enabled s) (hok : ¬ TakesLast s op) :
    Bound (op.run s) := by
  have hinv := h.inv.run he
  cases op with
  | mutex op => exact h.of_step hinv rfl (fun u hu => ⟨hu, rfl⟩) (fun u m hm => .inl hm) h.free
  | wait t m abstime => exact h.wait he.1 he.2 abstime
  | advance t => exact h.advance he hok
  | signal t b =>
    obtain ⟨hc, hpc⟩ := he
    have hout : t ∉ s.waitQueue.queue := h.notMem (by rw [hpc]; exact fun _ => nofun)
    exact h.move hinv rfl rfl hout rfl (Pc.unbound rfl) (by rw [hpc]; exact fun _ _ => nofun)
  | timeout t =>
    have hcases := Waiters.timeout_cases .fifo s.waitQueue t
    revert hinv
    show Inv { s with waitQueue := s.waitQueue.timeout .fifo t } →
      Bound { s with waitQueue := s.waitQueue.timeout .fifo t }
    rcases hcases with e | ⟨code, hin, hcode, e⟩
    · rw [e]
      exact fun _ => h
    · rw [e]
      intro hinv
      refine h.interrupt hinv (Waiters.extractCritical_queue _ _) ?_ hin
      intro hone
      by_contra hs
      exact hok ⟨hs, hone, by rw [hcode]; exact nofun⟩
  | unblockThread t =>
    revert hinv
    show Inv (unblockThread s t) → Bound (unblockThread s t)
    unfold unblockThread Waiters.extract
    split
    next hin =>
      intro hinv
      refine h.interrupt hinv (Waiters.extractCritical_queue _ _) ?_ hin
      intro hone
      by_contra hs
      exact hok ⟨hs, hone⟩
    next =>
      exact fun hinv => h.of_step hinv rfl (fun u hu => ⟨hu, rfl⟩) (fun u m hm => .inl hm) h.free

/-- The binding outlives the last wait. -/
theorem Bound.outlives (h : Bound s) {op : Op Tid Mid} (hlast : TakesLast s op) :
    ¬ MutexBound (op.run s) := by
  intro hgood
  have hstale : ∀ t, s.waitQueue.queue = [t] → ∀ s' : State Tid Mid, s' = op.run s →
      s'.mutex = s.mutex → s'.waitQueue.queue = s.waitQueue.queue.erase t → ¬ s'.Signaling → False := by
    intro t hone s' hs' hmutex hqueue hs
    obtain ⟨m, hm, -⟩ := h.waiting t (by rw [hone]; exact List.mem_cons_self)
    rw [← hs'] at hgood
    obtain ⟨u, hu⟩ := (hgood.bound_iff hs).mp (by rw [hmutex, hm]; exact nofun)
    rw [hqueue, hone, List.erase_cons_head] at hu
    cases hu
  cases op with
  | mutex _ => exact hlast
  | wait _ _ _ => exact hlast
  | signal _ _ => exact hlast
  | advance t =>
    obtain ⟨⟨woken, hpc⟩, v, hone⟩ := hlast
    have hd : s.disabled = some t := (h.inv.disabled t).mp (by rw [hpc]; rfl)
    have hrun : (Op.advance t : Op Tid Mid).run s =
        { s.setPc t .running with
          waitQueue := s.waitQueue.extractCritical .fifo v
          disabled := none } := by
      show Condition.advance s t = _
      have hfirst : s.waitQueue.firstLocked = some v := by
        rw [Waiters.firstLocked, hone]
        rfl
      simp only [Condition.advance, hpc, Condition.signalTurn, Waiters.dequeue, hfirst,
        Bool.false_eq_true, if_false]
    refine hstale v hone _ hrun.symm rfl (Waiters.extractCritical_queue _ _) ?_
    rintro ⟨u, b, woken', hu⟩
    rcases eq_or_ne u t with rfl | hne
    · exact absurd ((setPc_self s u _).symm.trans hu) nofun
    · have hpcu : s.pc u = .signaling b woken' := (setPc_other s _ hne).symm.trans hu
      have hdu : s.disabled = some u := (h.inv.disabled u).mp (by rw [hpcu]; rfl)
      exact hne (Option.some.inj (hdu.symm.trans hd))
  | timeout t =>
    obtain ⟨hs, hone, hcode⟩ := hlast
    obtain ⟨code, hcode⟩ := Option.ne_none_iff_exists'.mp hcode
    refine hstale t hone _ rfl rfl ?_ hs
    have hin : t ∈ s.waitQueue.queue := by
      rw [hone]
      exact List.mem_cons_self
    show (s.waitQueue.timeout .fifo t).queue = _
    simp only [Waiters.timeout, hcode, hin, if_true]
    exact Waiters.extractCritical_queue _ _
  | unblockThread t =>
    obtain ⟨hs, hone⟩ := hlast
    refine hstale t hone _ rfl rfl ?_ hs
    have hin : t ∈ (s.waitQueue.setReturnCode t Code.interrupted).queue := by
      rw [Waiters.setReturnCode_queue, hone]
      exact List.mem_cons_self
    show ((s.waitQueue.setReturnCode t Code.interrupted).extract .fifo t).queue = _
    rw [Waiters.extract, if_pos hin]
    exact Waiters.extractCritical_queue _ _

/-- The condition variable is bound exactly while threads wait on it, in all states of a run, if and
only if no step of the run takes the last thread off the wait queue behind the back of a signal. -/
theorem mutex_bound_iff {s₀ : State Tid Mid} (h₀ : Start s₀) {ops : List (Op Tid Mid)}
    (hrun : Along (fun s op => op.run s) (fun s op => op.Enabled s) s₀ ops) :
    (∀ s ∈ states (fun s op => op.run s) s₀ ops, MutexBound s) ↔
      Along (fun s op => op.run s) (fun s op => ¬ TakesLast s op) s₀ ops := by
  refine hrun.forall_states_iff (fun s => Bound.mutexBound) ?_ ?_ (.start h₀)
  · exact fun s op h he hok => h.run he hok
  · exact fun s op h _ hgood hlast => h.outlives hlast hgood

theorem mutex_bound_iff_signaled :
    (∀ s ∈ states (fun s op => op.run s) twoThreads waitAndSignal, MutexBound s) ↔
      Along (fun s op => op.run s) (fun s op => ¬ TakesLast s op) twoThreads waitAndSignal :=
  mutex_bound_iff twoThreads_start
    ⟨⟨rfl, ⟨.inl rfl, rfl⟩, rfl⟩, ⟨⟨.inl rfl, rfl⟩, rfl⟩, ⟨⟨.inr rfl, rfl⟩, fun _ => nofun⟩,
      ⟨⟨.inr rfl, rfl⟩, fun _ => nofun⟩, ⟨⟨.inl rfl, rfl⟩, rfl⟩, trivial⟩

/-- Two threads, and two mutexes that no one holds. -/
def twoMutexes : State Bool Bool where
  mutexes :=
    { threads := fun _ => ⟨10, 10, false, 0, none, .inactive, .successful⟩
      mutexes := fun _ => ⟨⟨.isError, true, .priority, 0⟩, none, 0, []⟩ }
  waitQueue := .start .successful
  mutex := none
  pc := fun _ => .running
  disabled := none

/-- The only wait is signaled, and then the other thread locks the other mutex. -/
def signalLast : List (Op Bool Bool) :=
  [.mutex (.seize true true true 0), .wait true true none, .advance true, .advance true,
    .signal false false, .advance false, .mutex (.seize false false true 0)]

/-- No thread waits any more, and yet the other thread may not wait with its mutex. -/
theorem binding_outlives : ¬ ∀ (s₀ : State Bool Bool) (ops : List (Op Bool Bool)), Start s₀ →
    Along (fun s op => op.run s) (fun s op => op.Enabled s) s₀ ops →
    ∀ s ∈ states (fun s op => op.run s) s₀ ops, MutexBound s := by
  intro hall
  have hstart : Start twoMutexes :=
    { mutexes := ⟨fun _ => rfl, fun _ => rfl, fun _ => rfl, fun _ => rfl, fun _ => rfl, fun _ => rfl⟩
      onlyOwnerRelease := fun _ => rfl
      waitQueue := rfl
      mutex := rfl
      pc := fun _ => rfl
      disabled := rfl }
  have hrun : Along (fun s op => op.run s) (fun s op => op.Enabled s) twoMutexes signalLast :=
    ⟨⟨rfl, ⟨.inl rfl, rfl⟩, rfl⟩, ⟨⟨.inl rfl, rfl⟩, rfl⟩, ⟨⟨.inr rfl, rfl⟩, fun _ => nofun⟩,
      ⟨⟨.inr rfl, rfl⟩, fun _ => nofun⟩, ⟨⟨.inl rfl, rfl⟩, rfl⟩,
      ⟨⟨.inr rfl, rfl⟩, fun _ => nofun⟩, ⟨rfl, ⟨.inl rfl, rfl⟩, rfl⟩, trivial⟩
  have hgood := hall twoMutexes signalLast hstart hrun _ mem_states_foldl
  obtain ⟨u, n, -, hin, -⟩ := hgood.mismatch false false ⟨.inl rfl, rfl⟩ rfl rfl
  cases hin

end Rtems.Condition
