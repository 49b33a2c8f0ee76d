import Rtems.CoreMutex.Inheritance

/-!
# Mutexes as one thread sees them

What the operations on mutexes that other threads perform leave to a thread:
the mutexes that it holds, and its place on a wait queue until a mutex is
handed over to it.
-/

namespace Rtems.CoreMutex

variable {Tid Mid : Type} [DecidableEq Tid] [DecidableEq Mid]
variable {s s' s'' : State Tid Mid} {t u : Tid} {m n : Mid}

/-- The fields of the thread control that a wait reads. -/
def State.Same (s s' : State Tid Mid) (t : Tid) : Prop :=
  (s'.threads t).waitQueue = (s.threads t).waitQueue ∧
    (s'.threads t).timer = (s.threads t).timer ∧
    (s'.threads t).returnCode = (s.threads t).returnCode

/-- A mutex that the thread waits for was handed over to it. -/
def State.HandedOver (s s' : State Tid Mid) (t : Tid) : Prop :=
  ∃ m, (s.threads t).waitQueue = some m ∧ (s'.threads t).waitQueue = none ∧
    (s'.threads t).returnCode = (s.threads t).returnCode ∧ (s'.mutexes m).holder = some t

/-- What others leave to a thread. -/
structure Seen (t : Tid) (s s' : State Tid Mid) : Prop where
  holder : ∀ m, (s.mutexes m).holder = some t → (s'.mutexes m).holder = some t
  waits : s.Same s' t ∨ s.HandedOver s' t

section

omit [DecidableEq Mid] [DecidableEq Tid]

theorem Seen.refl (t : Tid) (s : State Tid Mid) : Seen t s s :=
  ⟨fun _ h => h, .inl ⟨rfl, rfl, rfl⟩⟩

theorem Seen.trans (h : Seen t s s') (h' : Seen t s' s'') : Seen t s s'' where
  holder := fun m hm => h'.holder m (h.holder m hm)
  waits := by
    rcases h.waits with ⟨w, τ, r⟩ | ⟨m, w, w', r, hm⟩
    · rcases h'.waits with ⟨w2, τ2, r2⟩ | ⟨m, w2, w2', r2, hm⟩
      · exact .inl ⟨w2.trans w, τ2.trans τ, r2.trans r⟩
      · exact .inr ⟨m, w.symm.trans w2, w2', r2.trans r, hm⟩
    · rcases h'.waits with ⟨w2, -, r2⟩ | ⟨m', w2, -, -, -⟩
      · exact .inr ⟨m, w, w2.trans w', r2.trans r, h'.holder m hm⟩
      · exact absurd (w'.symm.trans w2) nofun

/-! ## Pieces of the operations -/

/-- Nothing but the threads changes, and not the one in question. -/
theorem Seen.of_threads (hm : s'.mutexes = s.mutexes) (ht : s.Same s' t) : Seen t s s' := by
  refine ⟨?_, .inl ht⟩
  intro m h
  rw [hm]
  exact h

end

section

omit [DecidableEq Mid]

theorem seen_setReturnCode (h : u ≠ t) (code : Status) : Seen t s (setReturnCode s u code) := by
  refine .of_threads rfl ?_
  have e : (setReturnCode s u code).threads t = s.threads t := by
    unfold setReturnCode
    rw [onThread_threads, if_neg h.symm]
  unfold State.Same
  rw [e]
  exact ⟨rfl, rfl, rfl⟩

end

theorem changePriority_timer (p : Priority) (f : Filter) :
    ((changePriority s u p f).threads t).timer = (s.threads t).timer := by
  have hf : ∀ c : ThreadControl Mid, (f.run c p).2.2.timer = c.timer := by
    intro c
    cases f <;> rfl
  have hp : ∀ s : State Tid Mid, (priorityChange s u).threads = s.threads := by
    intro s
    unfold priorityChange
    split
    next => rfl
    next => rfl
  unfold changePriority
  dsimp only
  split
  next =>
    rw [hp, onThread_threads]
    split
    next e =>
      rw [e]
      exact hf _
    next => rfl
  next =>
    rw [onThread_threads]
    split
    next e =>
      rw [e]
      exact hf _
    next => rfl

theorem seen_changePriority (t u : Tid) (p : Priority) (f : Filter) :
    Seen t s (changePriority s u p f) := by
  have hr := repriced_changePriority s u p f
  refine ⟨?_, .inl ⟨hr.waitQueue_eq t, changePriority_timer p f, hr.returnCode_eq t⟩⟩
  intro m h
  rw [hr.holder]
  exact h

theorem seen_lock (hh : (s.mutexes m).holder ≠ some t) : Seen t s (lock s u m) := by
  refine ⟨?_, .inl ?_⟩
  · intro n hn
    rw [lock_mutex]
    split
    next e =>
      rw [e] at hn
      exact absurd hn hh
    next => exact hn
  · unfold State.Same
    rw [lock_thread]
    exact ⟨rfl, rfl, rfl⟩

theorem seen_release (h : u ≠ t) (hh : (s.mutexes m).holder = some u) :
    Seen t s (release s u m) := by
  refine ⟨?_, .inl ?_⟩
  · intro n hn
    rw [release_mutex]
    split
    next e =>
      rw [e, hh] at hn
      exact absurd (Option.some.inj hn) h
    next => exact hn
  · unfold State.Same
    rw [release_thread]
    exact ⟨rfl, rfl, rfl⟩

theorem seen_extract (h : u ≠ t) : Seen t s (extract s u m) := by
  have e : (extract s u m).threads t = s.threads t := by
    unfold extract
    rw [onMutex_threads, onThread_threads, if_neg h.symm]
  refine ⟨?_, .inl ?_⟩
  · intro n hn
    rw [extract_mutex]
    exact hn
  · unfold State.Same
    rw [e]
    exact ⟨rfl, rfl, rfl⟩

theorem seen_enqueue (h : u ≠ t) (ticks : Nat) : Seen t s (enqueue s u m ticks) := by
  have e : (enqueue s u m ticks).threads t = s.threads t := by
    unfold enqueue
    rw [onMutex_threads, onThread_threads, if_neg h.symm]
  refine ⟨?_, .inl ?_⟩
  · intro n hn
    obtain ⟨q, hq⟩ := enqueue_mutex (s := s) (t := u) (m := m) ticks n
    rw [hq]
    exact hn
  · unfold State.Same
    rw [e]
    exact ⟨rfl, rfl, rfl⟩

/-! ## Seize -/

theorem seen_applyCeiling (h : u ≠ t) (hh : (s.mutexes m).holder ≠ some t) :
    Seen t s (applyCeiling s u m) := by
  unfold applyCeiling
  dsimp only
  split
  next => exact .refl t s
  next =>
    split
    next => exact seen_changePriority t u _ _
    next =>
      refine (seen_setReturnCode h .ceilingViolated).trans ?_
      refine ⟨?_, .inl ?_⟩
      · intro n hn
        rw [onThread_mutexes, onMutex_mutexes]
        split
        next e =>
          rw [e] at hn
          exact absurd hn hh
        next => exact hn
      · unfold State.Same
        rw [onThread_threads, if_neg h.symm]
        exact ⟨rfl, rfl, rfl⟩

theorem seen_trylock (h : u ≠ t) : Seen t s (trylock s u m).1 := by
  have hcode := seen_setReturnCode (s := s) h .successful
  unfold trylock
  dsimp only
  split
  next hfree =>
    have hlock : Seen t s (lock (setReturnCode s u .successful) u m) := by
      refine hcode.trans (seen_lock ?_)
      rw [hfree]
      exact nofun
    split
    next => exact hlock
    next =>
      refine hlock.trans (seen_applyCeiling h ?_)
      rw [lock_mutex, if_pos rfl]
      intro e
      exact h (Option.some.inj e)
  next holder hholder =>
    split
    next he =>
      split
      next =>
        refine hcode.trans ⟨?_, .inl ⟨rfl, rfl, rfl⟩⟩
        intro n hn
        rw [onMutex_field (·.holder) rfl]
        exact hn
      next => exact hcode.trans (seen_setReturnCode h _)
      next => exact hcode
    next => exact hcode

theorem seen_seize (h : u ≠ t) (wait : Bool) (ticks : Nat) : Seen t s (seize s u m wait ticks) := by
  have htry := seen_trylock (s := s) (m := m) h
  unfold seize
  split
  next s₁ e =>
    rw [e] at htry
    exact htry
  next s₁ e =>
    rw [e] at htry
    split
    next =>
      refine htry.trans ?_
      unfold seizeBlocking
      dsimp only
      split
      next => exact (seen_changePriority t _ _ _).trans (seen_enqueue h ticks)
      next => exact seen_enqueue h ticks
    next => exact htry.trans (seen_setReturnCode h _)

/-! ## Surrender and timeouts -/

/-- The first waiting thread gets the mutex. -/
theorem seen_handOver (hq : Queues s) (hh : (s.mutexes m).holder = none) :
    Seen t s (handOver s m) := by
  unfold handOver
  split
  next => exact .refl t s
  next w q he =>
    have hmem : (s.threads w).waitQueue = some m := (hq.mem m w).mp (by rw [he]; simp)
    have hlocked : Seen t s (lock (extract s w m) w m) := by
      rcases eq_or_ne w t with rfl | hne
      · refine ⟨?_, .inr ⟨m, hmem, ?_, ?_, ?_⟩⟩
        · intro n hn
          rw [lock_mutex]
          split
          next => rfl
          next =>
            rw [extract_mutex]
            exact hn
        · rw [lock_thread]
          show ((extract s w m).threads w).waitQueue = none
          rw [extract_waits, if_pos rfl]
        · rw [lock_thread]
          unfold extract
          rw [onMutex_threads, onThread_self]
        · rw [lock_mutex, if_pos rfl]
      · refine (seen_extract hne).trans (seen_lock ?_)
        rw [extract_mutex, hh]
        exact nofun
    dsimp only
    split
    next => exact hlocked.trans (seen_changePriority t _ _ _)
    next => exact hlocked

theorem seen_surrender [Fintype Mid] (hI : Inv s) (h : u ≠ t)
    (ho : (s.mutexes m).attributes.onlyOwnerRelease = true) :
    Seen t s (surrender s u m).1 := by
  unfold surrender
  dsimp only
  split
  next => exact .refl t s
  next hown =>
    have hholder : (s.mutexes m).holder = some u := by
      by_contra hne
      exact hown ⟨ho, hne⟩
    split
    next => exact .refl t s
    next =>
      have hnest : ∀ f : Control Tid → Nat,
          Seen t s (s.onMutex m fun x => { x with nestCount := f x }) := by
        intro f
        refine ⟨?_, .inl ⟨rfl, rfl, rfl⟩⟩
        intro n hn
        rw [onMutex_field (·.holder) rfl]
        exact hn
      split
      next => exact hnest fun x => x.nestCount - 1
      next =>
        rw [hholder]
        have hrel := seen_release (s := s) (m := m) h hholder
        have hfree : ((release s u m).mutexes m).holder = none := by
          rw [release_mutex, if_pos rfl]
        have hq : Queues (release s u m) := ((hI.openAt m).release hholder).queues
        have hover := hrel.trans (seen_handOver (t := t) hq hfree)
        show Seen t s (restoreIfIdle (handOver (release s u m) m) u)
        unfold restoreIfIdle
        split
        next => exact hover.trans (seen_changePriority t u _ _)
        next => exact hover

theorem seen_threadTimeout (h : u ≠ t) : Seen t s (threadTimeout s u) := by
  unfold threadTimeout
  split
  next => exact .refl t s
  next => exact (seen_setReturnCode h _).trans (seen_extract h)

/-! ## What a thread does itself -/

theorem trylock_waits : ((trylock s t m).1.threads u).waitQueue = (s.threads u).waitQueue := by
  unfold trylock
  dsimp only
  split
  next =>
    have hlock : ((lock (setReturnCode s t .successful) t m).threads u).waitQueue =
        (s.threads u).waitQueue := by
      rw [lock_thread]
      exact setReturnCode_waits _ _
    split
    next => exact hlock
    next =>
      unfold applyCeiling
      dsimp only
      split
      next => exact hlock
      next =>
        split
        next => exact ((repriced_changePriority _ _ _ _).waitQueue_eq u).trans hlock
        next =>
          rw [onThread_field (·.waitQueue) rfl, onMutex_threads, setReturnCode_waits]
          exact hlock
  next =>
    split
    next =>
      split
      next => exact setReturnCode_waits _ _
      next => exact (setReturnCode_waits _ _).trans (setReturnCode_waits _ _)
      next => exact setReturnCode_waits _ _
    next => exact setReturnCode_waits _ _

/-- An attempt that succeeds makes the thread the holder. -/
theorem trylock_holder (hb : (trylock s t m).2 = false)
    (hc : ((trylock s t m).1.threads t).returnCode = .successful) :
    ((trylock s t m).1.mutexes m).holder = some t := by
  unfold trylock at hb hc ⊢
  dsimp only at hb hc ⊢
  split at hb
  next hfree =>
    rw [hfree] at hc
    dsimp only at hc ⊢
    have hlock : ((lock (setReturnCode s t .successful) t m).mutexes m).holder = some t := by
      rw [lock_mutex, if_pos rfl]
    split
    next => exact hlock
    next hd =>
      rw [if_neg hd] at hc
      unfold applyCeiling at hc ⊢
      dsimp only at hc ⊢
      split
      next => exact hlock
      next hne =>
        rw [if_neg hne] at hc
        split
        next => exact ((repriced_changePriority _ _ _ _).holder m).trans hlock
        next hgt =>
          rw [if_neg hgt, onThread_self, onMutex_threads] at hc
          exact absurd hc (by simp [setReturnCode])
  next holder hholder =>
    split at hb
    next he =>
      rw [hholder] at hc
      dsimp only at hc ⊢
      rw [if_pos he] at hc ⊢
      split at hb
      next hn =>
        rw [onMutex_self]
        show (s.mutexes m).holder = some t
        rw [← he]
        exact hholder
      next hn =>
        rw [hn] at hc
        exact absurd hc (by simp [setReturnCode])
      next => cases hb
    next => cases hb

/-- A thread that seizes a mutex without a timeout waits for it, or it is the holder if it
succeeds. -/
theorem seize_self (hw : (s.threads t).waitQueue = none) :
    (((seize s t m true 0).threads t).waitQueue = some m ∧
      ((seize s t m true 0).threads t).timer = .inactive ∧
      ((seize s t m true 0).threads t).returnCode = .successful) ∨
    ((seize s t m true 0).threads t).waitQueue = none ∧
      (((seize s t m true 0).threads t).returnCode = .successful →
        ((seize s t m true 0).mutexes m).holder = some t) := by
  unfold seize
  split
  next s₁ e =>
    refine .inr ⟨?_, ?_⟩
    · have := trylock_waits (s := s) (t := t) (m := m) (u := t)
      rw [e] at this
      exact this.trans hw
    · have := trylock_holder (s := s) (t := t) (m := m)
      rw [e] at this
      exact this rfl
  next s₁ e =>
    have hblock := (trylock_block (s := s) (t := t) (m := m) (by rw [e])).1
    rw [e] at hblock
    obtain rfl : s₁ = setReturnCode s t .successful := hblock
    rw [if_pos rfl]
    left
    unfold seizeBlocking enqueue
    dsimp only
    rw [onMutex_threads, onThread_self]
    refine ⟨rfl, rfl, ?_⟩
    split
    next =>
      refine ((repriced_changePriority _ _ _ _).returnCode_eq t).trans ?_
      unfold setReturnCode
      rw [onThread_self]
    next =>
      unfold setReturnCode
      rw [onThread_self]

/-- A thread that surrenders a mutex waits for none. -/
theorem surrender_waits [Fintype Mid] (hw : (s.threads t).waitQueue = none) :
    ((surrender s t m).1.threads t).waitQueue = none := by
  unfold surrender
  dsimp only
  split
  next => exact hw
  next =>
    split
    next => exact hw
    next =>
      split
      next => exact hw
      next =>
        split
        next => exact hw
        next holder _ =>
          have hover : ((handOver (release s holder m) m).threads t).waitQueue = none := by
            by_contra hne
            have := handOver_waits hne
            rw [release_thread] at this
            exact this hw
          unfold restoreIfIdle
          split
          next => exact ((repriced_changePriority _ _ _ _).waitQueue_eq t).trans hover
          next => exact hover

/-! ## Attributes -/

/-- No operation changes the attributes of a mutex. -/
def State.SameAttributes (s s' : State Tid Mid) : Prop :=
  ∀ m, (s'.mutexes m).attributes = (s.mutexes m).attributes

section

omit [DecidableEq Tid]

theorem sameAttributes_onMutex (s : State Tid Mid) (m : Mid) (f : Control Tid → Control Tid)
    (h : (f (s.mutexes m)).attributes = (s.mutexes m).attributes) :
    s.SameAttributes (s.onMutex m f) := by
  intro n
  rw [onMutex_mutexes]
  split
  next e => rw [e, h]
  next => rfl

end

section

omit [DecidableEq Mid] [DecidableEq Tid]

theorem State.SameAttributes.trans (h : s.SameAttributes s') (h' : s'.SameAttributes s'') :
    s.SameAttributes s'' :=
  fun m => (h' m).trans (h m)

end

theorem sameAttributes_changePriority (p : Priority) (f : Filter) :
    s.SameAttributes (changePriority s t p f) :=
  (repriced_changePriority s t p f).attributes

theorem sameAttributes_lock : s.SameAttributes (lock s t m) := by
  intro n
  rw [lock_mutex]
  split
  next e => rw [e]
  next => rfl

theorem sameAttributes_trylock : s.SameAttributes (trylock s t m).1 := by
  have hcode : s.SameAttributes (setReturnCode s t .successful) := fun _ => rfl
  unfold trylock
  dsimp only
  split
  next =>
    have hlock : s.SameAttributes (lock (setReturnCode s t .successful) t m) :=
      hcode.trans sameAttributes_lock
    split
    next => exact hlock
    next =>
      refine hlock.trans ?_
      unfold applyCeiling
      dsimp only
      split
      next => exact fun _ => rfl
      next =>
        split
        next => exact sameAttributes_changePriority _ _
        next =>
          exact sameAttributes_onMutex _ m (fun x => { x with holder := none, nestCount := 0 }) rfl
  next =>
    split
    next =>
      split
      next =>
        exact sameAttributes_onMutex _ m
          (fun x => { x with nestCount := (x.nestCount + 1) % 2 ^ 32 }) rfl
      next => exact fun _ => rfl
      next => exact fun _ => rfl
    next => exact fun _ => rfl

theorem sameAttributes_enqueue (ticks : Nat) : s.SameAttributes (enqueue s t m ticks) := by
  intro n
  obtain ⟨q, hq⟩ := enqueue_mutex (s := s) (t := t) (m := m) ticks n
  rw [hq]

theorem sameAttributes_seize (wait : Bool) (ticks : Nat) :
    s.SameAttributes (seize s t m wait ticks) := by
  have htry := sameAttributes_trylock (s := s) (t := t) (m := m)
  unfold seize
  split
  next s₁ e =>
    rw [e] at htry
    exact htry
  next s₁ e =>
    rw [e] at htry
    split
    next =>
      refine htry.trans ?_
      unfold seizeBlocking
      dsimp only
      split
      next => exact (sameAttributes_changePriority _ _).trans (sameAttributes_enqueue ticks)
      next => exact sameAttributes_enqueue ticks
    next => exact htry

theorem sameAttributes_extract : s.SameAttributes (extract s t m) := by
  intro n
  rw [extract_mutex]

theorem sameAttributes_handOver : s.SameAttributes (handOver s m) := by
  unfold handOver
  split
  next => exact fun _ => rfl
  next w q _ =>
    have hlock : s.SameAttributes (lock (extract s w m) w m) :=
      sameAttributes_extract.trans sameAttributes_lock
    dsimp only
    split
    next => exact hlock.trans (sameAttributes_changePriority _ _)
    next => exact hlock

theorem sameAttributes_surrender : s.SameAttributes (surrender s t m).1 := by
  unfold surrender
  dsimp only
  split
  next => exact fun _ => rfl
  next =>
    split
    next => exact fun _ => rfl
    next =>
      split
      next =>
        exact sameAttributes_onMutex s m (fun x => { x with nestCount := x.nestCount - 1 }) rfl
      next =>
        split
        next =>
          exact sameAttributes_onMutex s m (fun x => { x with nestCount := 0 }) rfl
        next holder _ =>
          have hrel : s.SameAttributes (release s holder m) := by
            intro n
            rw [release_mutex]
            split
            next e => rw [e]
            next => rfl
          have hover : s.SameAttributes (handOver (release s holder m) m) :=
            hrel.trans sameAttributes_handOver
          refine hover.trans ?_
          unfold restoreIfIdle
          split
          next => exact sameAttributes_changePriority _ _
          next => exact fun _ => rfl

theorem sameAttributes_threadTimeout : s.SameAttributes (threadTimeout s t) := by
  unfold threadTimeout
  split
  next => exact fun _ => rfl
  next => exact sameAttributes_extract

theorem Op.sameAttributes (op : Op Tid Mid) : s.SameAttributes (op.run s) := by
  cases op with
  | seize executing m wait ticks => exact sameAttributes_seize wait ticks
  | surrender executing m => exact sameAttributes_surrender
  | timeout t => exact sameAttributes_threadTimeout
  | changePriority t p f => exact sameAttributes_changePriority p f

end Rtems.CoreMutex
