import Rtems.CoreMutex.Priorities

/-!
# The priority inheritance bound

A thread that blocks on a priority inheritance mutex raises the holder, once,
to its own priority of that moment.  Nothing follows later changes of a waiting
thread's priority, so the bound holds exactly as long as no waiting thread is
raised above the holder it waits for.  Under that condition it also holds
along chains of waiting threads.
-/

namespace Rtems.CoreMutex

open Lib

variable {Tid Mid : Type} [DecidableEq Tid] [DecidableEq Mid]
variable {s s' : State Tid Mid} {t u h : Tid} {m n : Mid}

/-- `t` waits for a priority inheritance mutex that `h` holds. -/
def WaitsFor (s : State Tid Mid) (t h : Tid) : Prop :=
  ∃ m, (s.mutexes m).attributes.discipline = .priorityInherit ∧
    (s.threads t).waitQueue = some m ∧ (s.mutexes m).holder = some h

/-- No thread waits for a less important holder. -/
def Bounded (s : State Tid Mid) : Prop := ∀ t h, WaitsFor s t h → s.prio h ≤ s.prio t

/-- The operation raises no waiting thread above the holder it waits for. -/
def KeepsBelow (s : State Tid Mid) : Op Tid Mid → Prop
  | .seize executing m wait _ => wait = true →
      (s.mutexes m).attributes.discipline = .priorityInherit →
      ∀ h h', (s.mutexes m).holder = some h → WaitsFor s h h' → s.prio h' ≤ s.prio executing
  | .surrender _ m => ∀ h, (s.mutexes m).holder = some h → (s.threads h).waitQueue ≠ none →
      s.prio h ≤ (s.threads h).realPriority
  | .timeout _ => True
  | .changePriority t newPriority f => ∀ h, WaitsFor s t h →
      s.prio h ≤ (f.result (s.threads t) newPriority).currentPriority

/-! ## The pieces of the operations -/

theorem counted_of_inherit {a : Attributes} (h : a.discipline = .priorityInherit) :
    a.counted = true := by
  simp [Attributes.counted, h]

section

omit [DecidableEq Mid] [DecidableEq Tid]

/-- Fewer threads wait, at the same priorities. -/
theorem Bounded.mono (hb : Bounded s) (hw : ∀ t h, WaitsFor s' t h → WaitsFor s t h)
    (hp : ∀ t, s'.prio t = s.prio t) : Bounded s' := by
  intro t h hth
  rw [hp, hp]
  exact hb t h (hw t h hth)

end

section

omit [DecidableEq Mid]

theorem WaitsFor.of_repriced (hr : Repriced t s s') {u : Tid} (hw : WaitsFor s' u h) :
    WaitsFor s u h := by
  obtain ⟨m, hd, hq, hh⟩ := hw
  exact ⟨m, hr.attributes m ▸ hd, hr.waitQueue_eq u ▸ hq, hr.holder m ▸ hh⟩

end

section Pieces

variable [Fintype Mid]

section

omit [DecidableEq Mid]

/-- A priority change keeps the bound if owners get no less important and the
changed thread stays below what it waits for. -/
theorem Bounded.reprice (hb : Bounded s) (hH : Holds s) (hr : Repriced t s s')
    (hle : (s.threads t).resourceCount ≠ 0 → s'.prio t ≤ s.prio t)
    (hw : ∀ h, WaitsFor s t h → s.prio h ≤ s'.prio t) : Bounded s' := by
  intro u h huh
  have huh' := huh.of_repriced hr
  have hown : h = t → s'.prio t ≤ s.prio t := by
    rintro rfl
    obtain ⟨m, hd, _, hh⟩ := huh'
    exact hle (hH.owns (counted_of_inherit hd) hh)
  by_cases hu : u = t
  · subst hu
    by_cases e : h = u
    · rw [e]
    · rw [hr.prio_other e]
      exact hw h huh'
  · rw [hr.prio_other hu]
    by_cases e : h = t
    · have := hb u h huh'
      rw [e] at this ⊢
      exact Nat.le_trans (hown e) this
    · rw [hr.prio_other e]
      exact hb u h huh'

end

theorem Bounded.raisePriority (hb : Bounded s) (hH : Holds s) (p : Priority)
    (hw : ∀ h, WaitsFor s t h → s.prio h ≤ p) : Bounded (raisePriority s t p) := by
  have hp := raisePriority_prio (s := s) (t := t) p
  refine hb.reprice hH (repriced_changePriority s t p .raise) (fun _ => ?_) fun h hth => ?_
  · exact Nat.le_trans (Nat.le_of_eq hp) (Nat.min_le_left _ _)
  · exact Nat.le_trans (Nat.le_min.mpr ⟨hb t h hth, hw h hth⟩) (Nat.le_of_eq hp.symm)

section

omit [Fintype Mid]

/-- A thread may join the queue of a mutex whose holder has its priority. -/
theorem Bounded.enqueue (hb : Bounded s) (ticks : Nat)
    (hm : (s.mutexes m).attributes.discipline = .priorityInherit →
      ∀ h, (s.mutexes m).holder = some h → s.prio h ≤ s.prio t) :
    Bounded (enqueue s t m ticks) := by
  intro u h hw
  obtain ⟨n, hd, hq, hh⟩ := hw
  obtain ⟨q, e⟩ := enqueue_mutex (s := s) (t := t) (m := m) ticks n
  rw [e] at hd hh
  rw [enqueue_waits] at hq
  rw [enqueue_prio, enqueue_prio]
  split at hq
  next hu =>
    obtain rfl : m = n := Option.some.inj hq
    rw [hu]
    exact hm hd h hh
  next => exact hb u h ⟨n, hd, hq, hh⟩

theorem Bounded.extract (hb : Bounded s) : Bounded (extract s t m) := by
  refine hb.mono (fun u h hw => ?_) extract_prio
  obtain ⟨n, hd, hq, hh⟩ := hw
  rw [extract_mutex] at hd hh
  rw [extract_waits] at hq
  split at hq
  next => cases hq
  next => exact ⟨n, hd, hq, hh⟩

/-- A free mutex may be given to a thread that is at least as important as all
that wait for it. -/
theorem Bounded.lock (hb : Bounded s)
    (hq : (s.mutexes m).attributes.discipline = .priorityInherit →
      ∀ u, (s.threads u).waitQueue = some m → s.prio t ≤ s.prio u) : Bounded (lock s t m) := by
  intro u h hw
  obtain ⟨n, hd, hu, hh⟩ := hw
  rw [lock_prio, lock_prio]
  rw [lock_thread] at hu
  rw [lock_mutex] at hd hh
  split at hh
  next e =>
    subst e
    rw [if_pos rfl] at hd
    obtain rfl : t = h := Option.some.inj hh
    exact hq hd u hu
  next e =>
    rw [if_neg e] at hd
    exact hb u h ⟨n, hd, hu, hh⟩

theorem Bounded.release (hb : Bounded s) : Bounded (release s t m) := by
  refine hb.mono (fun u h hw => ?_) release_prio
  obtain ⟨n, hd, hq, hh⟩ := hw
  rw [release_thread] at hq
  rw [release_mutex] at hd hh
  split at hh
  next => cases hh
  next e =>
    rw [if_neg e] at hd
    exact ⟨n, hd, hq, hh⟩

end

section

omit [DecidableEq Mid] [Fintype Mid]

theorem Bounded.setReturnCode (hb : Bounded s) (code : Status) :
    Bounded (setReturnCode s t code) := by
  refine hb.mono (fun u h hw => ?_) (setReturnCode_prio code)
  obtain ⟨n, hd, hq, hh⟩ := hw
  rw [setReturnCode_waits] at hq
  exact ⟨n, hd, hq, hh⟩

end

omit [DecidableEq Tid] [Fintype Mid]

theorem Bounded.nest (hb : Bounded s) (f : Control Tid → Nat) :
    Bounded (s.onMutex m fun x => { x with nestCount := f x }) := by
  refine hb.mono (fun u h hth => ?_) fun _ => rfl
  obtain ⟨n, hd, hq, hh⟩ := hth
  rw [onMutex_field (·.attributes) rfl n] at hd
  rw [onMutex_field (·.holder) rfl n] at hh
  exact ⟨n, hd, hq, hh⟩

end Pieces

/-! ## The operations -/

section Operations

variable [Fintype Mid]

section

omit [DecidableEq Mid] [DecidableEq Tid] [Fintype Mid]

theorem not_waitsFor (hw : (s.threads t).waitQueue = none) : ¬ WaitsFor s t h := by
  rintro ⟨m, _, hq, _⟩
  rw [hw] at hq
  cases hq

end

theorem Bounded.trylock (hb : Bounded s) (hI : Inv s) (hw : (s.threads t).waitQueue = none) :
    Bounded (trylock s t m).1 := by
  have hb1 : Bounded (CoreMutex.setReturnCode s t .successful) := hb.setReturnCode _
  have hI1 : Inv (CoreMutex.setReturnCode s t .successful) := hI.setReturnCode _
  have hw1 : ((CoreMutex.setReturnCode s t .successful).threads t).waitQueue = none := by
    rw [setReturnCode_waits, hw]
  generalize hs1 : CoreMutex.setReturnCode s t .successful = s1 at hb1 hI1 hw1
  unfold CoreMutex.trylock
  simp only [hs1]
  split
  next hh =>
    -- Nobody waits for a free mutex.
    have hl : Bounded (CoreMutex.lock s1 t m) := hb1.lock fun _ u hu =>
      absurd hh (hI1.served m trivial (List.ne_nil_of_mem ((hI1.queues.mem m u).mpr hu)))
    have hH : Holds (CoreMutex.lock s1 t m) := ((hI1.openAt m).lock hh).holds
    have hlw : ((CoreMutex.lock s1 t m).threads t).waitQueue = none := by
      rw [lock_thread]
      exact hw1
    split
    next => exact hl
    next hd =>
      rw [lock_mutex, if_pos rfl] at hd
      by_cases hlt : s1.prio t < (s1.mutexes m).attributes.priorityCeiling
      · dsimp only
        rw [applyCeiling_violated (not_not.mp hd) hh (hI1.nestCount_zero hh) hlt]
        exact hb1.setReturnCode _
      · have hp : ((CoreMutex.lock s1 t m).threads t).currentPriority = s1.prio t := lock_prio t
        have ha : ((CoreMutex.lock s1 t m).mutexes m).attributes = (s1.mutexes m).attributes := by
          rw [lock_mutex, if_pos rfl]
        unfold applyCeiling
        simp only [hp, ha]
        split
        next => exact hl
        next hne =>
          rw [if_pos (Nat.lt_of_le_of_ne (Nat.not_lt.mp hlt) (Ne.symm hne))]
          exact hl.raisePriority hH _ fun h hth => absurd hth (not_waitsFor hlw)
  next =>
    split
    next =>
      split
      next =>
        dsimp only
        exact hb1.nest _
      next => exact hb1.setReturnCode _
      next => exact hb1
    next => exact hb1

/-- The blocking thread hands its priority to the holder. -/
theorem Bounded.seizeBlocking (hb : Bounded s) (hI : Inv s) (ticks : Nat)
    (hk : (s.mutexes m).attributes.discipline = .priorityInherit →
      ∀ h h', (s.mutexes m).holder = some h → WaitsFor s h h' → s.prio h' ≤ s.prio t) :
    Bounded (seizeBlocking s t m ticks) := by
  unfold CoreMutex.seizeBlocking
  simp only
  split
  next holder hd hh =>
    have hr := repriced_changePriority s holder (s.prio t) .raise
    refine (hb.raisePriority hI.holds _ fun h hw => hk hd holder h hh hw).enqueue ticks ?_
    intro _ h hh'
    obtain rfl : holder = h := Option.some.inj (hh.symm.trans ((hr.holder m).symm.trans hh'))
    rw [raisePriority_prio]
    by_cases e : t = holder
    · rw [e, raisePriority_prio]
    · rw [CoreMutex.raisePriority, hr.prio_other e]
      exact Nat.min_le_right _ _
  next hno =>
    refine hb.enqueue ticks fun hd h hh => absurd hh (hno h hd)

theorem Bounded.seize (hb : Bounded s) (hI : Inv s) (hw : (s.threads t).waitQueue = none)
    {wait : Bool} {ticks : Nat} (hk : KeepsBelow s (.seize t m wait ticks)) :
    Bounded (seize s t m wait ticks) := by
  have htry := hb.trylock hI hw (m := m)
  unfold CoreMutex.seize
  split
  next s1 e =>
    rw [e] at htry
    exact htry
  next s1 e =>
    have h1 := (trylock_block (s := s) (t := t) (m := m) (by rw [e])).1
    rw [e] at htry h1
    obtain rfl : s1 = CoreMutex.setReturnCode s t .successful := h1
    split
    next hwait =>
      refine htry.seizeBlocking (hI.setReturnCode _) ticks fun hd h h' hh hth => ?_
      obtain ⟨n, hd', hq, hh'⟩ := hth
      rw [setReturnCode_waits] at hq
      rw [setReturnCode_prio, setReturnCode_prio]
      exact hk hwait hd h h' hh ⟨n, hd', hq, hh'⟩
    next => exact htry.setReturnCode _

/-- The first thread of the queue is at least as important as the others. -/
theorem Bounded.handOver (hb : Bounded s) (hI : InvFor (· ≠ m) s)
    (hh : (s.mutexes m).holder = none) : Bounded (handOver s m) := by
  unfold CoreMutex.handOver
  split
  next => exact hb
  next t q hq =>
    have hw : (s.threads t).waitQueue = some m := (hI.queues.mem m t).mp (by rw [hq]; simp)
    have hl : Bounded (CoreMutex.lock (CoreMutex.extract s t m) t m) := by
      refine hb.extract.lock fun hd u hu => ?_
      rw [extract_mutex] at hd
      rw [extract_waits] at hu
      rw [extract_prio, extract_prio]
      split at hu
      next => cases hu
      next =>
        have ho := hI.queues.ordered m (by rw [show _ = Discipline.priorityInherit from hd]; simp)
        have hm := (hI.queues.mem m u).mpr hu
        rw [hq] at ho hm
        exact ho.head_le hm
    have hH : Holds (CoreMutex.lock (CoreMutex.extract s t m) t m) :=
      ((hI.extract hw).lock (by rw [extract_mutex]; exact hh)).holds
    simp only
    split
    next =>
      refine hl.raisePriority hH _ fun h hth => absurd hth (not_waitsFor ?_)
      rw [lock_thread, extract_waits, if_pos rfl]
    next => exact hl

section

omit [Fintype Mid]

/-- Handing over makes no thread less important and keeps real priorities. -/
theorem handOver_thread (u : Tid) : (handOver s m).prio u ≤ s.prio u ∧
    ((handOver s m).threads u).realPriority = (s.threads u).realPriority := by
  unfold handOver
  split
  next => exact ⟨Nat.le_refl _, rfl⟩
  next t q hq =>
    have hl : (lock (extract s t m) t m).prio u = s.prio u := by rw [lock_prio, extract_prio]
    have hreal : ((lock (extract s t m) t m).threads u).realPriority =
        (s.threads u).realPriority := by
      rw [lock_thread]
      exact extract_realPriority u
    simp only
    split
    next =>
      by_cases e : u = t
      · subst e
        rw [raisePriority_prio, hl, ← hreal, raisePriority, changePriority_self]
        refine ⟨Nat.min_le_left _ _, ?_⟩
        rcases Filter.raise.result_cases ((lock (extract s u m) u m).threads u)
          ((lock (extract s u m) u m).mutexes m).attributes.priorityCeiling with ⟨_, e⟩ | ⟨_, e⟩
        · rw [e]
          rfl
        · rw [e]
          rfl
      · rw [State.prio, raisePriority, (repriced_changePriority _ _ _ _).others u e]
        exact ⟨Nat.le_of_eq hl, hreal⟩
    next => exact ⟨Nat.le_of_eq hl, hreal⟩

theorem handOver_release_thread (u : Tid) :
    (handOver (release s t m) m).prio u ≤ s.prio u ∧
      ((handOver (release s t m) m).threads u).realPriority = (s.threads u).realPriority := by
  obtain ⟨hp, hr⟩ := handOver_thread (s := release s t m) (m := m) u
  rw [release_prio] at hp
  rw [release_thread] at hr
  exact ⟨hp, hr⟩

/-- Handing over puts no thread on a queue. -/
theorem handOver_waits {u : Tid} (hw : ((handOver s m).threads u).waitQueue ≠ none) :
    (s.threads u).waitQueue ≠ none := by
  have hl : ∀ t, ((lock (extract s t m) t m).threads u).waitQueue ≠ none →
      (s.threads u).waitQueue ≠ none := fun t hn => by
    rw [lock_thread, extract_waits] at hn
    split at hn
    next => exact absurd rfl hn
    next => exact hn
  unfold handOver at hw
  split at hw
  next => exact hw
  next t q hq =>
    simp only at hw
    split at hw
    next =>
      rw [raisePriority, (repriced_changePriority _ _ _ _).waitQueue_eq] at hw
      exact hl t hw
    next => exact hl t hw

/-- A restored thread gets its real priority. -/
theorem restorePriority_prio : (restorePriority s t).prio t = (s.threads t).realPriority := by
  rw [State.prio, restorePriority, changePriority_self, result_restore]
  rcases Filter.restore.result_cases (s.threads t) 0 with ⟨_, e⟩ | ⟨_, e⟩ <;> rw [e] <;> rfl

end

theorem Bounded.surrender (hb : Bounded s) (hI : Inv s) (t : Tid)
    (hk : KeepsBelow s (.surrender t m)) : Bounded (surrender s t m).1 := by
  unfold CoreMutex.surrender
  simp only
  split
  next => exact hb
  split
  next => exact hb
  split
  next =>
    dsimp only
    exact hb.nest _
  split
  next =>
    dsimp only
    exact hb.nest _
  next holder hh =>
    have hI' := (hI.openAt m).release hh
    have hfree : ((CoreMutex.release s holder m).mutexes m).holder = none := by
      rw [release_mutex, if_pos rfl]
    have hg : Bounded (CoreMutex.handOver (CoreMutex.release s holder m) m) :=
      hb.release.handOver hI' hfree
    have hIg : Inv (CoreMutex.handOver (CoreMutex.release s holder m) m) := hI'.handOver hfree
    unfold restoreIfIdle
    split
    next hi =>
      refine hg.reprice hIg.holds (repriced_changePriority _ holder 0 .restore)
        (fun hc => ?_) fun h hw => ?_
      · simp [ThreadControl.ownsResources, hc] at hi
      · -- The restored thread waits, so it was not made more important.
        obtain ⟨hp, hr⟩ := handOver_release_thread (s := s) (t := holder) (m := m) holder
        have hwait : (s.threads holder).waitQueue ≠ none := by
          obtain ⟨n, _, hq, _⟩ := hw
          have := handOver_waits (s := CoreMutex.release s holder m) (m := m) (u := holder)
            (by rw [hq]; simp)
          rw [release_thread] at this
          exact this
        calc _ ≤ _ := hg holder h hw
          _ ≤ s.prio holder := hp
          _ ≤ (s.threads holder).realPriority := hk holder hh hwait
          _ = _ := hr.symm
          _ = _ := restorePriority_prio.symm
    next => exact hg

theorem Bounded.op (hb : Bounded s) (hI : Inv s) (op : Op Tid Mid) (he : op.Enabled s)
    (hk : KeepsBelow s op) : Bounded (op.run s) := by
  cases op with
  | seize executing m wait ticks => exact hb.seize hI he hk
  | surrender executing m => exact hb.surrender hI executing hk
  | timeout t =>
    simp only [Op.run, threadTimeout]
    split
    next => exact hb
    next => exact (hb.setReturnCode _).extract
  | changePriority t p f =>
    refine hb.reprice hI.holds (repriced_changePriority s t p f) (fun hc => ?_) fun h hw => ?_
    · rw [State.prio, Op.run, changePriority_self]
      exact result_le_of_owns he.2 hc p
    · rw [State.prio, State.prio, Op.run, changePriority_self]
      exact hk h hw

end Operations

end Rtems.CoreMutex
