import Rtems.CoreMutex.Priorities

/-!
# The state of core mutexes over whole runs

The invariants of the last two modules, put together, and two runs that show
where they end: the nest counter wraps after `2 ^ 32` nested seizes, and the
sporadic server lets a thread run below its real priority.
-/

namespace Rtems.CoreMutex

variable {Tid Mid : Type} [DecidableEq Tid] [DecidableEq Mid]
variable {s : State Tid Mid} {t : Tid} {m : Mid}

/-! ## Failed operations -/

section

omit [DecidableEq Mid]

theorem setReturnCode_twice (a b : Status) :
    setReturnCode (setReturnCode s t a) t b = setReturnCode s t b := by
  simp [setReturnCode, State.onThread]

end

section Failed

variable [Fintype Mid]

/-- A seize that is over at once succeeds or leaves nothing but its code. -/
theorem trylock_failed (h : Inv s) (t : Tid) (m : Mid) :
    ((trylock s t m).1.threads t).returnCode = .successful ∨
      ∃ code, (trylock s t m).1 = setReturnCode s t code := by
  have hcode : ((setReturnCode s t .successful).threads t).returnCode = .successful := by
    simp [setReturnCode]
  have hp : (setReturnCode s t .successful).prio t = s.prio t :=
    onThread_field (·.currentPriority) rfl t
  unfold trylock
  simp only
  cases hh : (s.mutexes m).holder with
  | none =>
    rw [show ((setReturnCode s t .successful).mutexes m).holder = none from hh]
    simp only
    split
    next =>
      refine .inl ?_
      rw [lock_thread]
      exact hcode
    next hd =>
      rw [lock_mutex, if_pos rfl] at hd
      by_cases hlt : s.prio t < (s.mutexes m).attributes.priorityCeiling
      · refine .inr ⟨.ceilingViolated, ?_⟩
        rw [applyCeiling_violated (not_not.mp hd) hh (h.nestCount_zero hh)
          (by rw [hp]; exact hlt), setReturnCode_twice]
      · refine .inl ((applyCeiling_granted ?_).trans hcode)
        rw [hp]
        exact Nat.not_lt.mp hlt
  | some holder =>
    rw [show ((setReturnCode s t .successful).mutexes m).holder = some holder from hh]
    simp only
    split
    next e =>
      split
      next => exact .inl hcode
      next => exact .inr ⟨.nestingNotAllowed, setReturnCode_twice _ _⟩
      next => exact .inl hcode
    next => exact .inl hcode

/-- **A seize that fails leaves every mutex and every thread as it was**, but
for the return code. -/
theorem seize_failed (h : Inv s) {wait : Bool} {ticks : Nat}
    (hc : ((seize s t m wait ticks).threads t).returnCode ≠ .successful) :
    ∃ code, seize s t m wait ticks = setReturnCode s t code := by
  unfold seize at hc ⊢
  split at hc
  next s1 e =>
    have := trylock_failed h t m
    rw [e] at this
    exact this.resolve_left hc
  next s1 e =>
    have h1 := (trylock_block (s := s) (t := t) (m := m) (by rw [e])).1
    rw [e] at h1
    obtain rfl : s1 = setReturnCode s t .successful := h1
    split at hc
    next hw =>
      -- A thread that blocks keeps the code of the attempt until it wakes up.
      refine absurd ?_ hc
      have hr : ∀ a : State Tid Mid, ((enqueue a t m ticks).threads t).returnCode =
          (a.threads t).returnCode := fun a => by simp [enqueue]
      unfold seizeBlocking
      simp only
      rw [hr]
      split
      next =>
        rw [raisePriority, (repriced_changePriority _ _ _ _).returnCode_eq]
        simp [setReturnCode]
      next => simp [setReturnCode]
    next hw =>
      rw [if_neg hw]
      exact ⟨_, setReturnCode_twice _ _⟩

section

omit [Fintype Mid]

/-- **A surrender that fails changes nothing.** -/
theorem surrender_failed (hc : (surrender s t m).2 ≠ .successful) :
    (surrender s t m).1 = s := by
  unfold surrender at hc ⊢
  simp only at hc ⊢
  split
  next => rfl
  next h1 =>
    rw [if_neg h1] at hc
    split at hc
    next => exact absurd rfl hc
    split at hc
    next => exact absurd rfl hc
    split at hc <;> exact absurd rfl hc

end

/-- **The last surrender hands the mutex to the first waiting thread.** -/
theorem surrender_handOver (h : Inv s) {w : Tid} {q : List Tid}
    (hq : (s.mutexes m).waitQueue = w :: q) (hn : (s.mutexes m).nestCount = 1)
    (ho : (s.mutexes m).attributes.onlyOwnerRelease = true → (s.mutexes m).holder = some t) :
    ((surrender s t m).1.mutexes m).holder = some w ∧
      ((surrender s t m).1.mutexes m).nestCount = 1 := by
  have hh : (s.mutexes m).holder ≠ none := h.served m trivial (by rw [hq]; simp)
  obtain ⟨holder, hh⟩ := Option.ne_none_iff_exists'.mp hh
  have hrq : ((release s holder m).mutexes m).waitQueue = w :: q := by
    rw [release_mutex, if_pos rfl]
    exact hq
  have hl : ((lock (extract (release s holder m) w m) w m).mutexes m).holder = some w ∧
      ((lock (extract (release s holder m) w m) w m).mutexes m).nestCount = 1 := by
    rw [lock_mutex, if_pos rfl]
    exact ⟨rfl, rfl⟩
  have hg : ((handOver (release s holder m) m).mutexes m).holder = some w ∧
      ((handOver (release s holder m) m).mutexes m).nestCount = 1 := by
    unfold handOver
    rw [hrq]
    simp only
    split
    next =>
      rw [raisePriority, (repriced_changePriority _ _ _ _).holder,
        (repriced_changePriority _ _ _ _).nestCount]
      exact hl
    next => exact hl
  unfold surrender
  simp only
  rw [if_neg fun hc => hc.2 (ho hc.1), if_neg (by rw [hn]; simp), if_neg (by rw [hn]; simp), hh]
  simp only [restoreIfIdle]
  split
  next =>
    rw [restorePriority, (repriced_changePriority _ _ _ _).holder,
      (repriced_changePriority _ _ _ _).nestCount]
    exact hg
  next => exact hg

end Failed

/-! ## Whole runs -/

/-- **The state of core mutexes.**  In every run: only a held mutex is nested, a
mutex with waiting threads is held, the resource counts are right, the holder
of a ceiling mutex has at least its ceiling, the last surrender hands over to
the first waiting thread, and a failed seize or surrender changes no mutex and
no resource count.  If the nested seizes stay below the limit of the counter, a
held mutex is nested.  Without the sporadic server, threads without resources
run at their real priority and no thread runs below it. -/
theorem mutex_state [Fintype Mid] (s0 s : State Tid Mid) (h0 : Start s0)
    (hrun : Relation.ReflTransGen (Step fun _ _ => True) s0 s) :
    (∀ m, 0 < (s.mutexes m).nestCount → (s.mutexes m).holder ≠ none) ∧
    (Relation.ReflTransGen (Step NestsInRange) s0 s →
      ∀ m, (s.mutexes m).holder ≠ none ↔ 0 < (s.mutexes m).nestCount) ∧
    (∀ t m, (s.threads t).waitQueue = some m → (s.mutexes m).holder ≠ none) ∧
    (∀ t, (s.threads t).resourceCount = heldCount s t) ∧
    (Relation.ReflTransGen (Step fun _ op => op.Plain) s0 s → ∀ t,
      ((s.threads t).resourceCount = 0 →
        (s.threads t).currentPriority = (s.threads t).realPriority) ∧
      (s.threads t).currentPriority ≤ (s.threads t).realPriority) ∧
    (∀ m t, (s.mutexes m).attributes.discipline = .priorityCeiling →
      (s.mutexes m).holder = some t →
      (s.threads t).currentPriority ≤ (s.mutexes m).attributes.priorityCeiling) ∧
    (∀ t m w q, (s.mutexes m).waitQueue = w :: q → (s.mutexes m).nestCount = 1 →
      ((s.mutexes m).attributes.onlyOwnerRelease = true → (s.mutexes m).holder = some t) →
      ((surrender s t m).1.mutexes m).holder = some w ∧
        ((surrender s t m).1.mutexes m).nestCount = 1) ∧
    (∀ t m wait ticks, ((seize s t m wait ticks).threads t).returnCode ≠ .successful →
      (seize s t m wait ticks).mutexes = s.mutexes ∧
        ∀ u, ((seize s t m wait ticks).threads u).resourceCount = (s.threads u).resourceCount) ∧
    (∀ t m, (surrender s t m).2 ≠ .successful → (surrender s t m).1 = s) := by
  have h : Inv s := Inv.run h0 hrun
  have hfree : ∀ m, 0 < (s.mutexes m).nestCount → (s.mutexes m).holder ≠ none :=
    fun m hn hh => absurd (h.holds.free m hh) (Nat.ne_of_gt hn)
  refine ⟨hfree, fun hn m => ⟨Nested.run h0 hn m, hfree m⟩, fun t m hw => ?_, h.holds.count, fun hplain t => ?_,
    fun m t hd ht => h.ceiled m trivial hd t ht, fun t m w q => surrender_handOver h, fun t m wait ticks hc => ?_,
    fun t m => surrender_failed⟩
  · exact h.served m trivial (List.ne_nil_of_mem ((h.queues.mem m t).mpr hw))
  · have hS := Settled.run h0 hplain
    exact ⟨hS.idle t trivial, (hS.raised t).le⟩
  · obtain ⟨code, e⟩ := seize_failed h hc
    rw [e]
    exact ⟨rfl, onThread_field (·.resourceCount) rfl⟩

/-- One thread of priority 10 and one mutex of the given discipline. -/
def exampleState (d : Discipline) : State Unit Unit where
  threads _ :=
    { currentPriority := 10, realPriority := 10, priorityRestoreHint := false, resourceCount := 0
      waitQueue := none, timer := .inactive, returnCode := .successful }
  mutexes _ :=
    { attributes := { lockNestingBehavior := .acquires, onlyOwnerRelease := true
                      discipline := d, priorityCeiling := 5 }
      holder := none, nestCount := 0, waitQueue := [] }

theorem exampleState_start (d : Discipline) : Start (exampleState d) where
  holder _ := rfl
  nestCount _ := rfl
  waitQueue _ := rfl
  waits _ := rfl
  priority _ := rfl
  resourceCount _ := rfl

/-- Two threads and the mutex. -/
def pairState (d : Discipline) : State Bool Unit where
  threads _ := (exampleState d).threads ()
  mutexes _ :=
    { attributes := ((exampleState d).mutexes ()).attributes
      holder := none, nestCount := 0, waitQueue := [] }

theorem pairState_start (d : Discipline) : Start (pairState d) where
  holder _ := rfl
  nestCount _ := rfl
  waitQueue _ := rfl
  waits _ := rfl
  priority _ := rfl
  resourceCount _ := rfl

/-- The first thread seizes the ceiling mutex twice and surrenders it once, and
the second thread waits: the next surrender hands over. -/
theorem mutex_state_ceiling :
    let ops : List (Op Bool Unit) := [.seize true () true 0, .seize true () true 0,
      .surrender true (), .seize false () true 0]
    let s := ops.foldl Op.run (pairState .priorityCeiling)
    s.prio true ≤ 5 ∧ ((surrender s true ()).1.mutexes ()).holder = some false := by
  intro ops s
  let after (n : Nat) : State Bool Unit := (ops.take n).foldl Op.run (pairState .priorityCeiling)
  have hrun : Relation.ReflTransGen (Step fun _ _ => True) (after 0) (after 4) :=
    calc
      Relation.ReflTransGen (Step fun _ _ => True) (after 0) (after 1) :=
        .single ⟨.seize true () true 0, rfl, trivial, rfl⟩
      Relation.ReflTransGen (Step fun _ _ => True) (after 1) (after 2) :=
        .single ⟨.seize true () true 0, rfl, trivial, rfl⟩
      Relation.ReflTransGen (Step fun _ _ => True) (after 2) (after 3) :=
        .single ⟨.surrender true (), rfl, trivial, rfl⟩
      Relation.ReflTransGen (Step fun _ _ => True) (after 3) (after 4) :=
        .single ⟨.seize false () true 0, rfl, trivial, rfl⟩
  have h := mutex_state _ _ (pairState_start _) hrun
  have hceiling := h.2.2.2.2.2.1 () true rfl rfl
  have hhands := h.2.2.2.2.2.2.1 true () false [] rfl rfl fun _ => rfl
  exact ⟨hceiling, hhands.1⟩

/-! ## Where the invariants end -/

/-- Nested seizes only count. -/
theorem run_nested (k : Nat) : ∃ s : State Unit Unit,
    Relation.ReflTransGen (Step fun _ _ => True) (exampleState .fifo) s ∧
      (s.threads ()).waitQueue = none ∧ (s.mutexes ()).holder = some () ∧
      (s.mutexes ()).attributes.lockNestingBehavior = .acquires ∧
      (s.mutexes ()).nestCount = (k + 1) % 2 ^ 32 := by
  induction k with
  | zero =>
    exact ⟨(Op.seize () () true 0).run (exampleState .fifo),
      .single ⟨.seize () () true 0, rfl, trivial, rfl⟩, rfl, rfl, rfl, rfl⟩
  | succ k ih =>
    obtain ⟨s, hrun, hw, hh, hb, hn⟩ := ih
    have hstep : (Op.seize () () true 0).run s =
        (setReturnCode s () .successful).onMutex () fun x =>
          { x with nestCount := (x.nestCount + 1) % 2 ^ 32 } := by
      have hh' : ((setReturnCode s () .successful).mutexes ()).holder = some () := hh
      have hb' : ((setReturnCode s () .successful).mutexes ()).attributes.lockNestingBehavior =
        .acquires := hb
      simp only [Op.run, seize, trylock, hh', hb', if_true]
    refine ⟨_, hrun.tail ⟨.seize () () true 0, hw, trivial, rfl⟩, ?_⟩
    rw [hstep]
    refine ⟨?_, ?_, ?_, ?_⟩
    · simpa [setReturnCode] using hw
    · rw [onMutex_self]
      exact hh
    · rw [onMutex_self]
      exact hb
    · change ((s.mutexes ()).nestCount + 1) % 2 ^ 32 = _
      rw [hn, Nat.mod_add_mod]

/-- After `2 ^ 32` nested seizes a held mutex has nest count zero, and the
sporadic server lets the holder of a mutex run below its real priority. -/
theorem mutex_state_unrestricted :
    (∃ s : State Unit Unit, Start (exampleState .fifo) ∧
      Relation.ReflTransGen (Step fun _ _ => True) (exampleState .fifo) s ∧
      (s.mutexes ()).holder ≠ none ∧ (s.mutexes ()).nestCount = 0) ∧
    (∃ s : State Unit Unit, Start (exampleState .priorityInherit) ∧
      Relation.ReflTransGen (Step fun _ _ => True) (exampleState .priorityInherit) s ∧
      (s.threads ()).realPriority < (s.threads ()).currentPriority) := by
  constructor
  · obtain ⟨s, hrun, _, hh, _, hn⟩ := run_nested (2 ^ 32 - 1)
    refine ⟨s, exampleState_start _, hrun, by rw [hh]; simp, ?_⟩
    rw [hn, Nat.sub_add_cancel (Nat.two_pow_pos 32), Nat.mod_self]
  · let s1 := (Op.seize () () true 0).run (exampleState .priorityInherit)
    refine ⟨(Op.changePriority () 3 .sporadicBudgetTsr).run s1, exampleState_start _,
      .tail (.single ⟨.seize () () true 0, rfl, trivial, rfl⟩)
        ⟨.changePriority () 3 .sporadicBudgetTsr, ⟨by decide, by decide⟩, trivial, rfl⟩, ?_⟩
    decide

end Rtems.CoreMutex
