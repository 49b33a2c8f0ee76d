import Rtems.Score.Types

/-!
# Rate monotonic periods

The model of `rtems_rate_monotonic_period` (`ratemonperiod.c`) and
`_Rate_monotonic_Timeout` (`ratemontimeout.c`) for one period on one processor.
The owner's call is cut where interrupts are enabled, and `Owner` names the
cuts.  The timeout routine runs in an interrupt, after the watchdog has left
the ticks chain; the owner goes on when it has ended.  The statistics of the
period are left out.
-/

namespace Rtems.RateMonotonic

/-- `rtems_rate_monotonic_period_states`. -/
inductive PeriodState where
  | inactive
  | ownerIsBlocking
  | active
  | expiredWhileBlocking
  | expired
deriving DecidableEq, Repr

/-- The `rtems_status_code` values that the call returns to the owner. -/
inductive Status where
  | successful
  | notDefined
  | timeout
  | invalidId
deriving DecidableEq, Repr

/-- Where the owner is in `rtems_rate_monotonic_period`. -/
inductive Owner where
  /-- In no call.  It blocks here if it waits for the period. -/
  | outside
  /-- The period was inactive and is to be started. -/
  | starting (length : Nat)
  /-- The owner announced that it blocks, its state is to be set. -/
  | blocking
  /-- The owner waits for the period, the period is to be examined again. -/
  | blocked
  /-- The period was found in `localState`. -/
  | examined (localState : PeriodState)
  /-- The period had expired and is to be restarted. -/
  | restarting (length : Nat)
deriving DecidableEq, Repr

/-- Where `_Rate_monotonic_Timeout` is. -/
inductive Timeout where
  | entered
  /-- The watchdog is to be inserted again. -/
  | insert
deriving DecidableEq, Repr

/-- `Rate_monotonic_Control`, its owner and its watchdog.  `hits` and `overrun`
are ghosts: how many timeouts found the owner not waiting since it announced
that it blocks, and whether this happened twice before the owner examined the
period again. -/
structure State where
  state : PeriodState
  nextLength : Nat
  /-- `Timer.state`. -/
  timer : WatchdogState
  /-- The owner is in `STATES_WAITING_FOR_PERIOD` with the id of this period. -/
  waiting : Bool
  owner : Owner
  /-- The timeout routine, if it is running. -/
  timeout : Option Timeout
  /-- What the last call returned. -/
  result : Option Status
  hits : Nat
  overrun : Bool
deriving DecidableEq, Repr

/-- A period after its creation. -/
def start : State where
  state := .inactive
  nextLength := 0
  timer := .inactive
  waiting := false
  owner := .outside
  timeout := none
  result := none
  hits := 0
  overrun := false

/-- `RTEMS_PERIOD_STATUS`. -/
def periodStatus : Nat := 0

/-! ## The owner -/

/-- What a call with `RTEMS_PERIOD_STATUS` returns. -/
def statusOf : PeriodState → Status
  | .inactive => .notDefined
  | .expired | .expiredWhileBlocking => .timeout
  | .active | .ownerIsBlocking => .successful

/-- `rtems_rate_monotonic_period`, called by the owner, up to the first
`_ISR_Enable`. -/
def period (s : State) (length : Nat) : State :=
  if length = periodStatus then { s with result := some (statusOf s.state) }
  else
    match s.state with
    | .inactive => { s with owner := .starting length }
    | .active =>
      { s with state := .ownerIsBlocking, nextLength := length, owner := .blocking, hits := 0 }
    | .expired => { s with owner := .restarting length }
    | .ownerIsBlocking | .expiredWhileBlocking => { s with result := some .invalidId }

/-- The call from one cut to the next. -/
def periodTurn (s : State) : State :=
  match s.owner with
  | .outside => s
  | .starting length =>
    { s with
      nextLength := length
      state := .active
      timer := .active
      owner := .outside
      result := some .successful }
  | .blocking => { s with waiting := true, owner := .blocked }
  | .blocked => { s with state := .active, owner := .examined s.state }
  | .examined localState =>
    { s with
      waiting := if localState = .expiredWhileBlocking then false else s.waiting
      owner := .outside
      result := some .successful }
  | .restarting length =>
    { s with
      state := .active
      nextLength := length
      timer := .active
      owner := .outside
      result := some .timeout }

/-! ## The timeout routine -/

/-- The watchdog expires: it leaves the chain and its routine is called. -/
def expire (s : State) : State := { s with timer := .inactive, timeout := some .entered }

/-- The owner has announced that it blocks and has not examined the period
again. -/
def State.inWindow (s : State) : Bool :=
  match s.owner with
  | .blocking | .blocked => true
  | .outside | .starting _ | .examined _ | .restarting _ => false

/-- Count a timeout that finds the owner not waiting. -/
def hit (s : State) : State :=
  if s.inWindow then
    { s with hits := s.hits + 1, overrun := s.overrun || decide (2 ≤ s.hits + 1) }
  else s

/-- `_Rate_monotonic_Timeout` from one cut to the next. -/
def timeoutTurn (s : State) : State :=
  match s.timeout with
  | none => s
  | some .entered =>
    if s.waiting then { s with waiting := false, timeout := some .insert }
    else if s.state = .ownerIsBlocking then
      { hit s with state := .expiredWhileBlocking, timeout := some .insert }
    else { hit s with state := .expired, timeout := none }
  | some .insert => { s with timer := .active, timeout := none }

/-! ## Runs -/

/-- A step of the owner or of the clock interrupt.  The owner runs neither
while it waits between two calls nor while the timeout routine does. -/
inductive Step : State → State → Prop where
  | period (s : State) (length : Nat) (howner : s.owner = .outside) (hready : s.waiting = false)
      (hisr : s.timeout = none) : Step s (period s length)
  | periodTurn (s : State) (hisr : s.timeout = none) : Step s (periodTurn s)
  | expire (s : State) (htimer : s.timer = .active) : Step s (expire s)
  | timeoutTurn (s : State) : Step s (timeoutTurn s)

/-- The states of the runs of a period. -/
def Reachable : State → Prop := Relation.ReflTransGen Step start

/-- The watchdog will call its routine, or the routine is running. -/
def State.Live (s : State) : Prop := s.timer = .active ∨ s.timeout ≠ none

/-! ## What a step does -/

/-- A call asks or fails, starts the period, blocks on it or restarts it. -/
theorem period_cases (s : State) (length : Nat) :
    (∃ result, period s length = { s with result := result }) ∨
      s.state = .inactive ∧ period s length = { s with owner := .starting length } ∨
      s.state = .active ∧ period s length =
        { s with state := .ownerIsBlocking, nextLength := length, owner := .blocking, hits := 0 } ∨
      s.state = .expired ∧ period s length = { s with owner := .restarting length } := by
  unfold period
  split
  · exact .inl ⟨_, rfl⟩
  · split
    next hs => exact .inr (.inl ⟨hs, rfl⟩)
    next hs => exact .inr (.inr (.inl ⟨hs, rfl⟩))
    next hs => exact .inr (.inr (.inr ⟨hs, rfl⟩))
    next => exact .inl ⟨_, rfl⟩
    next => exact .inl ⟨_, rfl⟩

/-- The timeout routine wakes the owner, tells it that the period expired,
marks the period expired, or puts the watchdog back. -/
theorem timeoutTurn_cases (s : State) :
    s.timeout = none ∧ timeoutTurn s = s ∨
      s.timeout = some .entered ∧ s.waiting = true ∧
        timeoutTurn s = { s with waiting := false, timeout := some .insert } ∨
      s.timeout = some .entered ∧ s.waiting = false ∧ s.state = .ownerIsBlocking ∧
        timeoutTurn s = { hit s with state := .expiredWhileBlocking, timeout := some .insert } ∨
      s.timeout = some .entered ∧ s.waiting = false ∧ s.state ≠ .ownerIsBlocking ∧
        timeoutTurn s = { hit s with state := .expired, timeout := none } ∨
      s.timeout = some .insert ∧ timeoutTurn s = { s with timer := .active, timeout := none } := by
  unfold timeoutTurn
  split
  next ht => exact .inl ⟨ht, rfl⟩
  next ht =>
    split
    next hw => exact .inr (.inl ⟨ht, hw, rfl⟩)
    next hw =>
      have hw := Bool.eq_false_iff.mpr hw
      split
      next hs => exact .inr (.inr (.inl ⟨ht, hw, hs, rfl⟩))
      next hs => exact .inr (.inr (.inr (.inl ⟨ht, hw, hs, rfl⟩)))
  next ht => exact .inr (.inr (.inr (.inr ⟨ht, rfl⟩)))

@[simp] theorem hit_timer (s : State) : (hit s).timer = s.timer := by
  unfold hit
  split <;> rfl

@[simp] theorem hit_waiting (s : State) : (hit s).waiting = s.waiting := by
  unfold hit
  split <;> rfl

@[simp] theorem hit_owner (s : State) : (hit s).owner = s.owner := by
  unfold hit
  split <;> rfl

theorem hit_inWindow {s : State} (h : s.inWindow = true) :
    hit s = { s with hits := s.hits + 1, overrun := s.overrun || decide (2 ≤ s.hits + 1) } := by
  unfold hit
  exact if_pos h

/-! ## What holds of every run -/

/-- The watchdog is off the chain wherever the period is not under way. -/
structure Idle (s : State) : Prop where
  timeout : s.timeout ≠ none → s.timer = .inactive ∧ s.state ≠ .expired ∧ s.state ≠ .inactive
  expired : s.state = .expired → s.timer = .inactive
  inactive : s.state = .inactive → s.timer = .inactive

theorem Idle.period {s : State} (h : Idle s) (hisr : s.timeout = none) (length : Nat) :
    Idle (period s length) := by
  rcases period_cases s length with ⟨r, e⟩ | ⟨hs, e⟩ | ⟨hs, e⟩ | ⟨hs, e⟩
  · rw [e]
    exact ⟨h.timeout, h.expired, h.inactive⟩
  · rw [e]
    exact ⟨h.timeout, h.expired, h.inactive⟩
  · rw [e]
    exact ⟨fun ht => absurd hisr ht, nofun, nofun⟩
  · rw [e]
    exact ⟨h.timeout, h.expired, h.inactive⟩

theorem Idle.periodTurn {s : State} (h : Idle s) (hisr : s.timeout = none) :
    Idle (periodTurn s) := by
  unfold RateMonotonic.periodTurn
  split
  next => exact h
  next => exact ⟨fun ht => absurd hisr ht, nofun, nofun⟩
  next => exact ⟨h.timeout, h.expired, h.inactive⟩
  next => exact ⟨fun ht => absurd hisr ht, nofun, nofun⟩
  next => exact ⟨h.timeout, h.expired, h.inactive⟩
  next => exact ⟨fun ht => absurd hisr ht, nofun, nofun⟩

theorem Idle.expire {s : State} (h : Idle s) (htimer : s.timer = .active) : Idle (expire s) := by
  refine ⟨fun _ => ⟨rfl, ?_, ?_⟩, fun _ => rfl, fun _ => rfl⟩
  · intro hs
    rw [h.expired hs] at htimer
    cases htimer
  · intro hs
    rw [h.inactive hs] at htimer
    cases htimer

theorem Idle.timeoutTurn {s : State} (h : Idle s) : Idle (timeoutTurn s) := by
  have hrun : ∀ pc, s.timeout = some pc →
      s.timer = .inactive ∧ s.state ≠ .expired ∧ s.state ≠ .inactive := by
    intro pc ht
    refine h.timeout ?_
    rw [ht]
    exact nofun
  rcases timeoutTurn_cases s with ⟨ht, e⟩ | ⟨ht, -, e⟩ | ⟨ht, -, -, e⟩ | ⟨ht, -, -, e⟩ | ⟨ht, e⟩
  · rw [e]
    exact h
  · rw [e]
    exact ⟨fun _ => hrun _ ht, h.expired, h.inactive⟩
  · rw [e]
    refine ⟨fun _ => ⟨?_, nofun, nofun⟩, nofun, nofun⟩
    exact (hit_timer s).trans (hrun _ ht).1
  · rw [e]
    refine ⟨fun hc => absurd rfl hc, fun _ => ?_, nofun⟩
    exact (hit_timer s).trans (hrun _ ht).1
  · rw [e]
    obtain ⟨-, hne, hni⟩ := hrun _ ht
    exact ⟨fun hc => absurd rfl hc, fun hs => absurd hs hne, fun hs => absurd hs hni⟩

theorem Idle.step {s s' : State} (h : Idle s) (hstep : Step s s') : Idle s' := by
  cases hstep with
  | period length howner hready hisr => exact h.period hisr length
  | periodTurn hisr => exact h.periodTurn hisr
  | expire htimer => exact h.expire htimer
  | timeoutTurn => exact h.timeoutTurn

theorem Reachable.idle {s : State} (h : Reachable s) : Idle s :=
  Reach.invariant h ⟨fun ht => absurd rfl ht, nofun, fun _ => rfl⟩ fun _ _ hi hs => hi.step hs

/-! ## Runs without an overrun -/

/-- The period is off the chain, or it is under way and the owner may wait
for it. -/
def Settled (s : State) : Prop :=
  (s.state = .inactive ∨ s.state = .expired) ∧ s.waiting = false ∨ s.state = .active ∧ s.Live

/-- The period as the owner left it when it announced that it blocks, or as
one timeout left it since. -/
def Announced (s : State) : Prop :=
  s.Live ∧ (s.state = .ownerIsBlocking ∧ s.hits = 0 ∨ s.state = .expiredWhileBlocking ∧ s.hits = 1)

/-- What the owner's place in its call says of the period. -/
def Tracks (s : State) : Prop :=
  match s.owner with
  | .outside => Settled s
  | .examined _ => Settled s
  | .starting _ => s.state = .inactive ∧ s.waiting = false
  | .restarting _ => s.state = .expired ∧ s.waiting = false
  | .blocking => s.waiting = false ∧ Announced s
  | .blocked => Announced s

theorem Tracks.live_of_waiting {s : State} (h : Tracks s) (hw : s.waiting = true) : s.Live := by
  have hsettled : Settled s → s.Live := by
    rintro (⟨-, hf⟩ | ⟨-, hl⟩)
    · rw [hf] at hw
      cases hw
    · exact hl
  unfold Tracks at h
  split at h
  next => exact hsettled h
  next => exact hsettled h
  next => exact absurd (hw.symm.trans h.2) nofun
  next => exact absurd (hw.symm.trans h.2) nofun
  next => exact h.2.1
  next => exact h.1

theorem Tracks.period {s : State} (h : Tracks s) (howner : s.owner = .outside)
    (hready : s.waiting = false) (length : Nat) : Tracks (period s length) := by
  unfold Tracks at h
  rw [howner] at h
  rcases period_cases s length with ⟨r, e⟩ | ⟨hs, e⟩ | ⟨hs, e⟩ | ⟨hs, e⟩
  · rw [e]
    unfold Tracks
    simp only [howner]
    exact h
  · rw [e]
    exact ⟨hs, hready⟩
  · rw [e]
    refine ⟨hready, ?_, .inl ⟨rfl, rfl⟩⟩
    rcases h with ⟨hs' | hs', -⟩ | ⟨-, hl⟩
    · rw [hs] at hs'
      cases hs'
    · rw [hs] at hs'
      cases hs'
    · exact hl
  · rw [e]
    exact ⟨hs, hready⟩

theorem Tracks.periodTurn {s : State} (h : Tracks s) : Tracks (periodTurn s) := by
  have h' := h
  unfold Tracks at h
  unfold RateMonotonic.periodTurn
  split
  next => exact h'
  next length howner => exact .inr ⟨rfl, .inl rfl⟩
  next howner =>
    rw [howner] at h
    exact h.2
  next howner =>
    rw [howner] at h
    exact .inr ⟨rfl, h.1⟩
  next localState howner =>
    rw [howner] at h
    rcases h with ⟨hs, hw⟩ | hactive
    · refine .inl ⟨hs, ?_⟩
      show (if localState = _ then false else s.waiting) = false
      rw [hw]
      exact ite_self _
    · exact .inr hactive
  next length howner => exact .inr ⟨rfl, .inl rfl⟩

/-- The interrupt leaves the owner where it is. -/
theorem Tracks.of_interrupt {s s' : State} (h : Tracks s) (howner : s'.owner = s.owner)
    (hsettled : s.inWindow = false → Settled s → Settled s')
    (hannounced : s.inWindow = true → Announced s → Announced s')
    (hwaiting : s.waiting = false → s'.waiting = false)
    (hstate : s.state = .inactive ∨ s.state = .expired → s'.state = s.state) : Tracks s' := by
  unfold Tracks at h ⊢
  rw [howner]
  unfold State.inWindow at hsettled hannounced
  cases ho : s.owner with
  | outside =>
    rw [ho] at h hsettled
    exact hsettled rfl h
  | examined localState =>
    rw [ho] at h hsettled
    exact hsettled rfl h
  | starting length =>
    rw [ho] at h
    exact ⟨(hstate (.inl h.1)).trans h.1, hwaiting h.2⟩
  | restarting length =>
    rw [ho] at h
    exact ⟨(hstate (.inr h.1)).trans h.1, hwaiting h.2⟩
  | blocking =>
    rw [ho] at h hannounced
    exact ⟨hwaiting h.1, hannounced rfl h.2⟩
  | blocked =>
    rw [ho] at h hannounced
    exact hannounced rfl h

theorem Tracks.expire {s : State} (h : Tracks s) : Tracks (expire s) := by
  refine h.of_interrupt rfl ?_ ?_ id fun _ => rfl
  · rintro - (hoff | ⟨hs, -⟩)
    · exact .inl hoff
    · exact .inr ⟨hs, .inr nofun⟩
  · rintro - ⟨-, hstate⟩
    exact ⟨.inr nofun, hstate⟩

theorem Tracks.timeoutTurn {s : State} (h : Tracks s) (hidle : Idle s)
    (hover : (timeoutTurn s).overrun = false) : Tracks (timeoutTurn s) := by
  have hrun : ∀ pc, s.timeout = some pc → ¬ (s.state = .inactive ∨ s.state = .expired) := by
    intro pc ht hs
    obtain ⟨-, hne, hni⟩ := hidle.timeout (by rw [ht]; exact nofun)
    exact hs.elim hni hne
  rcases timeoutTurn_cases s with
    ⟨-, e⟩ | ⟨ht, hw, e⟩ | ⟨ht, hw, hs, e⟩ | ⟨ht, hw, hs, e⟩ | ⟨ht, e⟩
  · rw [e]
    exact h
  · rw [e]
    refine h.of_interrupt rfl ?_ ?_ (fun _ => rfl) (fun _ => rfl)
    · rintro - (⟨-, hf⟩ | ⟨hs, -⟩)
      · rw [hw] at hf
        cases hf
      · exact .inr ⟨hs, .inr nofun⟩
    · rintro - ⟨-, hstate⟩
      exact ⟨.inr nofun, hstate⟩
  · rw [e]
    refine h.of_interrupt (hit_owner s) ?_ ?_ (fun _ => (hit_waiting s).trans hw)
      (fun hs => absurd hs (hrun _ ht))
    · rintro - (⟨hoff, -⟩ | ⟨hactive, -⟩)
      · exact absurd hoff (hrun _ ht)
      · rw [hs] at hactive
        cases hactive
    · rintro hin ⟨-, ⟨-, hhits⟩ | ⟨hs', -⟩⟩
      · rw [hit_inWindow hin]
        exact ⟨.inr nofun, .inr ⟨rfl, congrArg Nat.succ hhits⟩⟩
      · rw [hs] at hs'
        cases hs'
  · rw [e]
    refine h.of_interrupt (hit_owner s) ?_ ?_ (fun _ => (hit_waiting s).trans hw)
      (fun hs => absurd hs (hrun _ ht))
    · intro _ _
      exact .inl ⟨.inr rfl, (hit_waiting s).trans hw⟩
    · rintro hin ⟨-, ⟨hs', -⟩ | ⟨-, hhits⟩⟩
      · exact absurd hs' hs
      · -- the second timeout of the window
        rw [e, hit_inWindow hin] at hover
        simp only [hhits, Nat.reduceAdd, Nat.le_refl, decide_true, Bool.or_true] at hover
        cases hover
  · rw [e]
    refine h.of_interrupt rfl ?_ ?_ id fun _ => rfl
    · rintro - (hoff | ⟨hs, -⟩)
      · exact .inl hoff
      · exact .inr ⟨hs, .inl rfl⟩
    · rintro - ⟨-, hstate⟩
      exact ⟨.inl rfl, hstate⟩

/-- An overrun is never taken back. -/
theorem Step.overrun {s s' : State} (hstep : Step s s') (h : s'.overrun = false) :
    s.overrun = false := by
  cases hstep with
  | period length howner hready hisr =>
    rcases period_cases s length with ⟨r, e⟩ | ⟨-, e⟩ | ⟨-, e⟩ | ⟨-, e⟩
    all_goals
      rw [e] at h
      exact h
  | periodTurn hisr =>
    unfold RateMonotonic.periodTurn at h
    split at h
    all_goals exact h
  | expire htimer => exact h
  | timeoutTurn =>
    have hhit : (hit s).overrun = false → s.overrun = false := by
      unfold hit
      intro h
      split at h
      · exact (Bool.or_eq_false_iff.mp h).1
      · exact h
    rcases timeoutTurn_cases s with ⟨-, e⟩ | ⟨-, -, e⟩ | ⟨-, -, -, e⟩ | ⟨-, -, -, e⟩ | ⟨-, e⟩
    · rw [e] at h
      exact h
    · rw [e] at h
      exact h
    · rw [e] at h
      exact hhit h
    · rw [e] at h
      exact hhit h
    · rw [e] at h
      exact h

theorem Reachable.tracks {s : State} (h : Reachable s) : s.overrun = false → Tracks s := by
  induction h with
  | refl =>
    intro _
    exact .inl ⟨.inl rfl, rfl⟩
  | tail hreach hstep ih =>
    intro hover
    have htracks := ih (hstep.overrun hover)
    cases hstep with
    | period length howner hready hisr => exact htracks.period howner hready length
    | periodTurn hisr => exact htracks.periodTurn
    | expire htimer => exact htracks.expire
    | timeoutTurn => exact htracks.timeoutTurn (Reachable.idle hreach) hover

/-- The period is expired only while its watchdog is inactive.  And as long as
the watchdog has not expired twice on an owner that announced to block, was not
waiting yet or any more and had not examined the period again, an owner that
waits for the period will be woken: the watchdog is active or its routine is
running. -/
theorem period_wakes_owner {s : State} (h : Reachable s) :
    (s.overrun = false → s.waiting = true → s.timer = .active ∨ s.timeout ≠ none) ∧
      (s.state = .expired → s.timer = .inactive) :=
  ⟨fun hover hw => (h.tracks hover).live_of_waiting hw, h.idle.expired⟩

/-- The owner has started the period and calls again to wait for its end. -/
def announces : State := period (periodTurn (period start 1)) 1

theorem reachable_announces : Reachable announces :=
  .tail (.tail (.tail .refl (.period _ 1 rfl rfl rfl)) (.periodTurn _ rfl))
    (.period _ 1 rfl rfl rfl)

/-- One expiration of the watchdog and the whole timeout routine. -/
def tick (s : State) : State := timeoutTurn (timeoutTurn (expire s))

theorem Reachable.tick {s : State} (h : Reachable s) (ht : s.timer = .active) :
    Reachable (tick s) :=
  .tail (.tail (.tail h (.expire s ht)) (.timeoutTurn _)) (.timeoutTurn _)

/-- The rest of a call that blocks: the wait and the second look at the period. -/
def finish (s : State) : State := periodTurn (periodTurn (periodTurn s))

theorem Reachable.finish {s : State} (h : Reachable s) (hisr : s.timeout = none)
    (hisr₁ : (periodTurn s).timeout = none)
    (hisr₂ : (periodTurn (periodTurn s)).timeout = none) : Reachable (finish s) :=
  .tail (.tail (.tail h (.periodTurn _ hisr)) (.periodTurn _ hisr₁)) (.periodTurn _ hisr₂)

/-- The watchdog expires between the announcement and the wait, and the owner
goes on.  It waits for the next end of the period. -/
theorem period_wakes_owner_waiting :
    let s := finish (tick announces)
    let s' := finish (period s 1)
    s.waiting = false ∧ s'.waiting = true ∧ (s'.timer = .active ∨ s'.timeout ≠ none) := by
  intro s s'
  have hs : Reachable s := (reachable_announces.tick rfl).finish rfl rfl rfl
  have hs' : Reachable s' := Reachable.finish (.tail hs (.period _ 1 rfl rfl rfl)) rfl rfl rfl
  exact ⟨rfl, rfl, (period_wakes_owner hs').1 rfl rfl⟩

/-- Two expirations between the announcement and the wait: the owner waits
for a period whose watchdog is off the chain. -/
theorem period_wakes_owner_stranded :
    ∃ s : State, Reachable s ∧ s.owner = .outside ∧ s.waiting = true ∧ s.state = .active ∧
      s.timer = .inactive ∧ s.timeout = none := by
  have hwindow : Reachable (tick (tick announces)) := (reachable_announces.tick rfl).tick rfl
  exact ⟨finish (tick (tick announces)), hwindow.finish rfl rfl rfl, rfl, rfl, rfl, rfl, rfl⟩

end Rtems.RateMonotonic
