import Rtems.CoreMutex.Invariant

/-!
# Current and real priorities

A thread that owns no resource runs at its real priority, and no thread runs
below it.  The restore hint is what makes this work: a thread whose priorities
differ has the hint set, so the surrender of its last resource restores it.

The sporadic server's filters write the real priority and leave the current
one alone, so this part needs a run without them.
-/

namespace Rtems.CoreMutex

variable {Tid Mid : Type} [DecidableEq Tid] [DecidableEq Mid]
variable {s s' : State Tid Mid} {t u : Tid} {m n : Mid}

/-! ## One thread -/

/-- The hint is set whenever the priorities differ. -/
structure ThreadControl.Raised (c : ThreadControl Mid) : Prop where
  hint : c.currentPriority ≠ c.realPriority → c.priorityRestoreHint = true
  le : c.currentPriority ≤ c.realPriority

/-- A thread without resources runs at its real priority. -/
def ThreadControl.Idle (c : ThreadControl Mid) : Prop :=
  c.resourceCount = 0 → c.currentPriority = c.realPriority

section

omit [DecidableEq Mid]

theorem raised_raise {c : ThreadControl Mid} (h : c.Raised) (p : Priority) :
    (Filter.raise.result c p).Raised := by
  have hle := result_raise c p
  obtain ⟨_, e⟩ | ⟨_, e⟩ := Filter.raise.result_cases c p
  · rw [e] at hle ⊢
    exact ⟨fun _ => rfl, Nat.le_trans (Nat.le_of_eq hle) (Nat.le_trans (Nat.min_le_left _ _) h.le)⟩
  · rw [e]
    exact ⟨fun _ => rfl, h.le⟩

/-- A restored thread runs at its real priority. -/
theorem result_restore (c : ThreadControl Mid) (p : Priority) :
    (Filter.restore.result c p).currentPriority =
      (Filter.restore.result c p).realPriority := by
  obtain ⟨_, e⟩ | ⟨hk, e⟩ := Filter.restore.result_cases c p
  · rw [e]
    rfl
  · rw [e]
    exact (by simpa [Filter.run] using hk : c.realPriority = c.currentPriority).symm

theorem settled_set (c : ThreadControl Mid) (p : Priority) :
    (Filter.set.result c p).Raised ∧ (Filter.set.result c p).Idle := by
  obtain ⟨_, e⟩ | ⟨hk, e⟩ := Filter.set.result_cases c p
  · rw [e]
    exact ⟨⟨fun h => absurd rfl h, Nat.le_refl _⟩, fun _ => rfl⟩
  · rw [e]
    simp only [Filter.run, priorityLessThan, ThreadControl.ownsResources, Bool.or_eq_false_iff,
      decide_eq_false_iff_not, Nat.not_lt, Bool.not_eq_false', bne_iff_ne] at hk
    exact ⟨⟨fun _ => rfl, hk.1⟩, fun h0 => absurd h0 hk.2⟩

theorem settled_raiseReal {c : ThreadControl Mid} (hi : c.Idle) (p : Priority) :
    (Filter.raiseReal.result c p).Raised ∧ (Filter.raiseReal.result c p).Idle := by
  obtain ⟨_, e⟩ | ⟨hk, e⟩ := Filter.raiseReal.result_cases c p
  · rw [e]
    exact ⟨⟨fun h => absurd rfl h, Nat.le_refl _⟩, fun _ => rfl⟩
  · rw [e]
    have hle : priorityHighest c.realPriority p ≤ c.realPriority := by
      unfold priorityHighest
      split
      next hlt => exact Nat.le_of_lt (of_decide_eq_true hlt)
      next => exact Nat.le_refl _
    have hk' : c.currentPriority ≤ priorityHighest c.realPriority p :=
      Nat.not_lt.mp (of_decide_eq_false hk)
    refine ⟨⟨fun _ => rfl, hk'⟩, fun h0 => ?_⟩
    exact Nat.le_antisymm hk' (Nat.le_trans hle (Nat.le_of_eq (hi h0).symm))

end

/-! ## All threads -/

/-- Every thread has its hint, and the threads that are `ok` are settled. -/
structure SettledFor (ok : Tid → Prop) (s : State Tid Mid) : Prop where
  raised : ∀ t, (s.threads t).Raised
  idle : ∀ t, ok t → (s.threads t).Idle

def Settled (s : State Tid Mid) : Prop := SettledFor (fun _ => True) s

section Settled

variable {ok : Tid → Prop}

section

omit [DecidableEq Mid] [DecidableEq Tid]

/-- Settling reads priorities, the hint, and whether there are resources. -/
theorem SettledFor.congr (h : SettledFor ok s)
    (hc : ∀ t, (s'.threads t).currentPriority = (s.threads t).currentPriority)
    (hr : ∀ t, (s'.threads t).realPriority = (s.threads t).realPriority)
    (hh : ∀ t, (s'.threads t).priorityRestoreHint = (s.threads t).priorityRestoreHint)
    (hz : ∀ t, ok t → (s'.threads t).resourceCount = 0 → (s.threads t).resourceCount = 0) :
    SettledFor ok s' where
  raised t := by
    refine ⟨?_, ?_⟩
    · rw [hc, hr, hh]
      exact (h.raised t).hint
    · rw [hc, hr]
      exact (h.raised t).le
  idle t hk h0 := by
    rw [hc, hr]
    exact h.idle t hk (hz t hk h0)

theorem SettledFor.mono (h : Settled s) : SettledFor ok s where
  raised := h.raised
  idle t _ := h.idle t trivial

end

theorem SettledFor.changePriority (h : SettledFor ok s) {p : Priority} {f : Filter}
    (hr : (f.result (s.threads t) p).Raised) (hi : ok t → (f.result (s.threads t) p).Idle) :
    SettledFor ok (changePriority s t p f) := by
  have hR := repriced_changePriority s t p f
  refine { raised := fun u => ?_, idle := fun u hk => ?_ }
  all_goals by_cases e : u = t
  · subst e
    rw [changePriority_self]
    exact hr
  · rw [hR.others u e]
    exact h.raised u
  · subst e
    rw [changePriority_self]
    exact hi hk
  · rw [hR.others u e]
    exact h.idle u hk

/-- Only owners of resources are raised. -/
theorem SettledFor.raisePriority (h : SettledFor ok s) (hc : (s.threads t).resourceCount ≠ 0)
    (p : Priority) : SettledFor ok (raisePriority s t p) := by
  refine h.changePriority (raised_raise (h.raised t) p) fun _ h0 => ?_
  have := (repriced_changePriority s t p .raise).resourceCount
  rw [changePriority_self, h0] at this
  exact absurd this.symm hc

section

omit [DecidableEq Mid]

theorem SettledFor.setReturnCode (h : SettledFor ok s) (code : Status) :
    SettledFor ok (setReturnCode s t code) :=
  h.congr (onThread_field (·.currentPriority) rfl) (onThread_field (·.realPriority) rfl)
    (onThread_field (·.priorityRestoreHint) rfl)
    fun u _ h0 => (onThread_field (·.resourceCount) rfl u).symm.trans h0

end

theorem SettledFor.enqueue (h : SettledFor ok s) (ticks : Nat) :
    SettledFor ok (enqueue s t m ticks) := by
  refine h.congr (enqueue_prio ticks) (fun u => ?_) (fun u => ?_) fun u _ h0 => ?_
  · simp only [CoreMutex.enqueue, onMutex_threads]
    exact onThread_field (·.realPriority) rfl u
  · simp only [CoreMutex.enqueue, onMutex_threads]
    exact onThread_field (·.priorityRestoreHint) rfl u
  · exact (enqueue_resourceCount ticks u).symm.trans h0

theorem SettledFor.extract (h : SettledFor ok s) : SettledFor ok (extract s t m) := by
  refine h.congr extract_prio extract_realPriority (fun u => ?_) fun u _ h0 => ?_
  · simp only [CoreMutex.extract, onMutex_threads]
    exact onThread_field (·.priorityRestoreHint) rfl u
  · exact (extract_resourceCount u).symm.trans h0

theorem SettledFor.lock (h : SettledFor ok s) : SettledFor ok (lock s t m) := by
  refine h.congr (fun u => ?_) (fun u => ?_) (fun u => ?_) fun u _ h0 => ?_
  all_goals rw [lock_thread] at *
  exact (Nat.add_eq_zero_iff.mp h0).1

/-- A release leaves the releasing thread to be settled. -/
theorem SettledFor.release (h : Settled s) : SettledFor (· ≠ t) (release s t m) := by
  refine (SettledFor.mono h).congr (fun u => ?_) (fun u => ?_) (fun u => ?_) fun u e h0 => ?_
  all_goals rw [release_thread] at *
  simpa [e] using h0

/-- The restore settles it. -/
theorem SettledFor.restoreIfIdle (h : SettledFor (· ≠ t) s) : Settled (restoreIfIdle s t) := by
  unfold CoreMutex.restoreIfIdle
  split
  next =>
    have hr := result_restore (s.threads t) 0
    have h' : SettledFor (· ≠ t) (restorePriority s t) :=
      h.changePriority ⟨fun hn => absurd hr hn, Nat.le_of_eq hr⟩ fun e => absurd rfl e
    refine { raised := h'.raised, idle := fun u _ => ?_ }
    by_cases e : u = t
    · subst e
      intro _
      rw [restorePriority, changePriority_self]
      exact hr
    · exact h'.idle u e
  next hn =>
    refine { raised := h.raised, idle := fun u _ => ?_ }
    by_cases e : u = t
    · subst e
      intro h0
      by_contra hd
      exact hn (by simp [ThreadControl.ownsResources, h0, (h.raised u).hint hd])
    · exact h.idle u e

end Settled

/-! ## The operations -/

section Operations

variable [Fintype Mid]

theorem Settled.applyCeiling (h : Settled s) (hI : Inv s)
    (hd : (s.mutexes m).attributes.discipline = .priorityCeiling)
    (hh : (s.mutexes m).holder = none) : Settled (applyCeiling (lock s t m) t m) := by
  by_cases hlt : s.prio t < (s.mutexes m).attributes.priorityCeiling
  · rw [applyCeiling_violated hd hh (hI.nestCount_zero hh) hlt]
    exact h.setReturnCode _
  · have hp : ((lock s t m).threads t).currentPriority = s.prio t := lock_prio t
    have hm : ((lock s t m).mutexes m).attributes = (s.mutexes m).attributes := by
      rw [lock_mutex, if_pos rfl]
    unfold CoreMutex.applyCeiling
    simp only [hp, hm]
    split
    next => exact h.lock
    next hne =>
      rw [if_pos (Nat.lt_of_le_of_ne (Nat.not_lt.mp hlt) (Ne.symm hne))]
      refine h.lock.raisePriority ?_ _
      rw [lock_thread]
      simp [Attributes.counted, hd]

theorem Settled.trylock (h : Settled s) (hI : Inv s) : Settled (trylock s t m).1 := by
  have h1 : Settled (setReturnCode s t .successful) := h.setReturnCode _
  have hI1 : Inv (setReturnCode s t .successful) := hI.setReturnCode _
  unfold CoreMutex.trylock
  simp only
  split
  next hh =>
    split
    next => exact h1.lock
    next hd =>
      refine h1.applyCeiling hI1 ?_ hh
      rw [lock_mutex, if_pos rfl] at hd
      exact not_not.mp hd
  next =>
    split
    next =>
      split
      next => exact ⟨h1.raised, h1.idle⟩
      next => exact h1.setReturnCode _
      next => exact h1
    next => exact h1

theorem Settled.seizeBlocking (h : Settled s) (hI : Inv s) (ticks : Nat) :
    Settled (seizeBlocking s t m ticks) := by
  unfold CoreMutex.seizeBlocking
  simp only
  split
  next holder hd hh =>
    refine (h.raisePriority ?_ _).enqueue ticks
    exact hI.holds.owns (by simp [Attributes.counted, hd]) hh
  next => exact h.enqueue ticks

theorem Settled.seize (h : Settled s) (hI : Inv s) (wait : Bool) (ticks : Nat) :
    Settled (seize s t m wait ticks) := by
  have htry := h.trylock hI (t := t) (m := m)
  unfold CoreMutex.seize
  split
  next s1 e =>
    rw [e] at htry
    exact htry
  next s1 e =>
    obtain ⟨h1, hh⟩ := trylock_block (s := s) (t := t) (m := m) (by rw [e])
    rw [e] at htry h1
    obtain rfl : s1 = CoreMutex.setReturnCode s t .successful := h1
    split
    · exact htry.seizeBlocking (hI.setReturnCode _) ticks
    · exact htry.setReturnCode _

section

omit [Fintype Mid]

theorem SettledFor.handOver {ok : Tid → Prop} (h : SettledFor ok s) :
    SettledFor ok (handOver s m) := by
  unfold CoreMutex.handOver
  split
  next => exact h
  next t q hq =>
    have hl : SettledFor ok (CoreMutex.lock (CoreMutex.extract s t m) t m) := h.extract.lock
    simp only
    split
    next hd =>
      refine hl.raisePriority ?_ _
      rw [lock_mutex, if_pos rfl] at hd
      have hd' : ((CoreMutex.extract s t m).mutexes m).attributes.discipline =
        .priorityCeiling := hd
      rw [lock_thread]
      simp [Attributes.counted, hd']
    next => exact hl

theorem Settled.surrender (h : Settled s) (t : Tid) (m : Mid) :
    Settled (surrender s t m).1 := by
  unfold CoreMutex.surrender
  simp only
  split
  next => exact h
  split
  next => exact h
  split
  next => exact ⟨h.raised, h.idle⟩
  split
  next => exact ⟨h.raised, h.idle⟩
  next => exact (SettledFor.release h).handOver.restoreIfIdle

end

/-- The priority change is not the sporadic server's. -/
def Op.Plain : Op Tid Mid → Prop
  | .changePriority _ _ f => f = .set ∨ f = .raiseReal
  | _ => True

theorem Settled.op (h : Settled s) (hI : Inv s) (op : Op Tid Mid) (hp : op.Plain) :
    Settled (op.run s) := by
  cases op with
  | seize executing m wait ticks => exact h.seize hI wait ticks
  | surrender executing m => exact h.surrender executing m
  | timeout t =>
    simp only [Op.run, threadTimeout]
    split
    next => exact h
    next => exact (h.setReturnCode _).extract
  | changePriority t p f =>
    rcases hp with rfl | rfl
    · obtain ⟨hr, hi⟩ := settled_set (s.threads t) p
      exact SettledFor.changePriority h hr fun _ => hi
    · obtain ⟨hr, hi⟩ := settled_raiseReal (h.idle t trivial) p
      exact SettledFor.changePriority h hr fun _ => hi

section

omit [DecidableEq Mid] [DecidableEq Tid] [Fintype Mid]

theorem Settled.of_start (h : Start s) : Settled s where
  raised t := ⟨fun hn => absurd (h.priority t) hn, Nat.le_of_eq (h.priority t)⟩
  idle t _ := fun _ => h.priority t

end

/-- **Priorities are settled along every run without the sporadic server.** -/
theorem Settled.run (h0 : Start s)
    (hrun : Relation.ReflTransGen (Step fun _ op => op.Plain) s s') : Settled s' := by
  suffices h : Inv s' ∧ Settled s' from h.2
  refine Reach.invariant (p := fun a => Inv a ∧ Settled a) hrun ⟨.of_start h0, .of_start h0⟩ ?_
  rintro a _ ⟨hI, hS⟩ ⟨op, he, hp, rfl⟩
  exact ⟨hI.op op he, hS.op hI op hp⟩

end Operations

end Rtems.CoreMutex
